import SubnetRegistry.Proofs.Serving.Requests

/-!
# Jobs and replies

The books of a service that hears messages while it works: what it has published and what it has yet
to publish are, together, one reply for each message that asked for one. Until there is nothing left
to publish, some request can go on or some reply can be published.

## Main definitions

* `Job.replyBy`, `Message.replyBy` — the replies, where the results of the requests are known.
* `Serving.pending` — the jobs that are not done.
* `Serving.Booked` — what ties the jobs to the messages heard and to the requests.

## Main statements

* `Serving.Booked.step` — every event keeps the books.
* `Serving.Booked.length_eq` — a message that asked is answered or pending.
* `Serving.exists_step` — a service with something pending can go on.
* `Serving.length_events_le` — it cannot go on for long.
* `Serving.exists_completion` — all that is pending can be done.
* `Serving.run?_filter` — messages that ask for no reply make no difference.
-/
namespace SubnetRegistry

variable {results : Nat → Result} {root : String}

/-! ## Replies -/

def Job.isDone : Job → Bool
  | .done => true
  | .refused .. | .requested .. => false

def Job.replyBy (results : Nat → Result) : Job → Option Message
  | .refused reply reason => some (.ofResponse reply (.invalidRequest reason))
  | .requested reply task => some (.ofResponse reply (.ofResult (results task)))
  | .done => none

/-- The reply to a numbered message, where requests have these results. -/
def Message.replyBy (root : String) (results : Nat → Result) (e : Nat × Message) : Option Message :=
  e.2.reply.map fun reply =>
    .ofResponse reply <| match Request.ofMessage root e.2.subject e.2.payload with
      | .error reason => .invalidRequest reason
      | .ok _ => .ofResult (results e.1)

def Job.subject? : Job → Option String
  | .refused reply _ | .requested reply _ => some reply
  | .done => none

theorem Job.isSome_subject? (job : Job) : job.subject?.isSome = !job.isDone := by
  cases job <;> rfl

theorem Job.subject_replyBy (job : Job) :
    (job.replyBy results).map Message.subject = job.subject? := by
  cases job <;> rfl

theorem Message.subject_replyBy (e : Nat × Message) :
    (Message.replyBy root results e).map Message.subject = e.2.reply := by
  rw [replyBy, Option.map_map]
  exact Option.map_id'

theorem Message.reply_of_replyBy {e : Nat × Message} {m : Message}
    (h : Message.replyBy root results e = some m) : m.reply = none := by
  obtain ⟨reply, -, rfl⟩ := Option.map_eq_some_iff.1 h
  rfl

/-- The results that are known in a session are these. -/
def Session.Agrees (s : Session) (results : Nat → Result) : Prop :=
  ∀ i result, s.result? i = some result → results i = result

theorem Session.exists_agrees (s : Session) : ∃ results, s.Agrees results := by
  refine ⟨fun i => (s.result? i).getD (.ok .empty), fun i result h => ?_⟩
  simp only [h, Option.getD_some]

theorem Session.ResultsIn.agrees {s t : Session} (h : s.ResultsIn t) (ht : t.Agrees results) :
    s.Agrees results :=
  fun i result hi => ht i result (h i result hi)

theorem perm_filterMap_set {α β : Type} {f : α → Option β} {l : List α} {k : Nat} {a b : α} {c : β}
    (hk : l[k]? = some a) (ha : f a = some c) (hb : f b = none) :
    (c :: (l.set k b).filterMap f).Perm (l.filterMap f) := by
  obtain ⟨hlt, rfl⟩ := List.getElem?_eq_some_iff.1 hk
  have hset : l.set k b = l.take k ++ b :: l.drop (k + 1) := List.set_eq_take_append_cons_drop.trans
    (if_pos hlt)
  have hl : l.filterMap f = (l.take k).filterMap f ++ c :: (l.drop (k + 1)).filterMap f := by
    conv_lhs => rw [← List.take_append_drop k l, List.drop_eq_getElem_cons hlt]
    rw [List.filterMap_append, List.filterMap_cons_some ha]
  rw [hl, hset, List.filterMap_append, List.filterMap_cons_none hb]
  exact List.perm_middle.symm

theorem mem_set_of_ne {α : Type} {l : List α} {k : Nat} {a b x : α} (hk : l[k]? = some a)
    (hx : x ∈ l) (hne : x ≠ a) : x ∈ l.set k b := by
  obtain ⟨j, hj⟩ := List.mem_iff_getElem?.1 hx
  have hjk : k ≠ j := by
    rintro rfl
    exact hne (Option.some.inj (hj.symm.trans hk))
  exact List.mem_of_getElem? ((List.getElem?_set_ne hjk).trans hj)

namespace Serving

variable {identifier : Nat → String} {fails : Nat → Call → Option InfrastructureError}
  {store : Store} {s t : Serving} {events : List Event} {e : Event}

def pending (s : Serving) : List Job := s.jobs.filter fun job => !job.isDone

/-- What ties the jobs to the messages heard and to the requests. -/
structure Booked (heard : List Message) (s : Serving) : Prop where
  tasks : s.session.tasks.length = (Message.requestsOf s.root heard).length
  /-- Who has no result yet has a job. -/
  listed : ∀ i < s.session.tasks.length, s.session.result? i = none →
    ∃ reply, .requested reply i ∈ s.jobs
  known : ∀ reply i, .requested reply i ∈ s.jobs → i < s.session.tasks.length
  /-- What was published and what is left to publish is one reply for each message that asked. -/
  balance : ∀ results, s.session.Agrees results →
    (s.published ++ s.jobs.filterMap (Job.replyBy results)).Perm
      ((Message.numbered s.root heard).filterMap (Message.replyBy s.root results))

theorem booked_idle (root : String) (store : Store) : Booked [] (idle root store) where
  tasks := rfl
  listed := nofun
  known := nofun
  balance _ _ := .nil

namespace Booked

variable {heard : List Message} {m : Message} {job : Job} {reply reason : String} {r : Request}

/-- One more message and one more job, where they have the same reply. -/
theorem balance_append {published : List Message} {jobs : List Job}
    (hb : (published ++ jobs.filterMap (Job.replyBy results)).Perm
      ((Message.numbered root heard).filterMap (Message.replyBy root results)))
    (hj : job.replyBy results =
      Message.replyBy root results ((Message.requestsOf root heard).length, m)) :
    (published ++ (jobs ++ [job]).filterMap (Job.replyBy results)).Perm
      ((Message.numbered root (heard ++ [m])).filterMap (Message.replyBy root results)) := by
  rw [Message.numbered_append, List.filterMap_append, List.filterMap_append, ← List.append_assoc]
  refine hb.append (.of_eq ?_)
  simp only [List.filterMap_cons, hj, List.filterMap_nil]

theorem ignore (h : Booked heard s) (hm : m.reply = none) : Booked (heard ++ [m]) s where
  tasks := by
    rw [Message.requestsOf_append, Message.request?_of_silent hm]
    simpa using h.tasks
  listed := h.listed
  known := h.known
  balance results hr := by
    rw [Message.numbered_append, List.filterMap_append]
    simpa [Message.replyBy, hm] using h.balance results hr

theorem refuse (h : Booked heard s) (hm : m.reply = some reply)
    (hr : Request.ofMessage s.root m.subject m.payload = .error reason) :
    Booked (heard ++ [m]) { s with jobs := s.jobs ++ [.refused reply reason] } where
  tasks := by
    rw [Message.requestsOf_append, Message.request?_of_refused hm hr]
    simpa using h.tasks
  listed i hi hnone := by
    obtain ⟨reply, hj⟩ := h.listed i hi hnone
    exact ⟨reply, List.mem_append_left _ hj⟩
  known reply i hj := by
    rcases List.mem_append.1 hj with hj | hj
    · exact h.known reply i hj
    · cases List.mem_singleton.1 hj
  balance results hres :=
    balance_append (h.balance results hres) (by simp [Job.replyBy, Message.replyBy, hm, hr])

theorem accept (h : Booked heard s) (hm : m.reply = some reply)
    (hr : Request.ofMessage s.root m.subject m.payload = .ok r) (plan : Except SubnetError Plan) :
    Booked (heard ++ [m])
      { s with
        session := s.session.enter plan
        jobs := s.jobs ++ [.requested reply s.session.tasks.length] } where
  tasks := by
    have hrequest : m.request? s.root = some r := Message.request?_eq_some_iff.2 ⟨reply, hm, hr⟩
    rw [Message.requestsOf_append, hrequest]
    simpa [Session.enter] using h.tasks
  listed i hi hnone := by
    by_cases hlt : i < s.session.tasks.length
    · obtain ⟨reply, hj⟩ := h.listed i hlt
        ((Session.resultsIn_enter _ plan).result?_eq_none hnone)
      exact ⟨reply, List.mem_append_left _ hj⟩
    · have hlast : i = s.session.tasks.length := by
        simp only [Session.enter, List.length_append, List.length_singleton] at hi
        omega
      exact ⟨reply, hlast ▸ List.mem_append_right _ (List.mem_singleton_self _)⟩
  known reply i hj := by
    simp only [Session.enter, List.length_append, List.length_singleton]
    rcases List.mem_append.1 hj with hj | hj
    · have := h.known reply i hj
      omega
    · cases List.mem_singleton.1 hj
      omega
  balance results hres := by
    have hbefore := (Session.resultsIn_enter _ plan).agrees hres
    refine balance_append (h.balance results hbefore) ?_
    simp [Job.replyBy, Message.replyBy, hm, hr, h.tasks]

theorem work (h : Booked heard s) {i : Nat} {session : Session}
    (ha : s.session.advance? fails i = some session) : Booked heard { s with session } := by
  have hm : Session.Step fails s.session (.advance i) session := Session.step_of_move? ha
  refine ⟨hm.length_tasks.trans h.tasks, fun i hi hnone => ?_, fun reply i hj => ?_,
    fun results hres => h.balance results (hm.resultsIn.agrees hres)⟩
  · exact h.listed i (hm.length_tasks ▸ hi) (hm.resultsIn.result?_eq_none hnone)
  · exact (h.known reply i hj).trans_eq hm.length_tasks.symm

theorem publish (h : Booked heard s) {k : Nat} (hj : s.jobs[k]? = some job)
    (hm : s.message? job = some m) :
    Booked heard { s with jobs := s.jobs.set k .done, published := s.published ++ [m] } where
  tasks := h.tasks
  listed i hi hnone := by
    obtain ⟨reply, hmem⟩ := h.listed i hi hnone
    refine ⟨reply, mem_set_of_ne hj hmem ?_⟩
    rintro rfl
    rw [message?, hnone] at hm
    cases hm
  known reply i hmem := by
    rcases List.mem_or_eq_of_mem_set hmem with hmem | hmem
    · exact h.known reply i hmem
    · cases hmem
  balance results hres := by
    have hreply : job.replyBy results = some m := by
      cases job with
      | refused reply reason => exact hm
      | requested reply i =>
        obtain ⟨result, hresult, rfl⟩ := Option.map_eq_some_iff.1 hm
        rw [Job.replyBy, hres i result hresult]
      | done => cases hm
    rw [List.append_assoc]
    exact ((perm_filterMap_set hj hreply rfl).append_left _).trans (h.balance results hres)

end Booked

/-- Every event keeps the books. -/
theorem Booked.step {heard : List Message} (h : Booked heard s)
    (hm : Step identifier fails s e t) : Booked (heard ++ e.heard?.toList) t := by
  cases hm with
  | ignore hm => exact h.ignore hm
  | refuse hm hr => exact h.refuse hm hr
  | accept hm hr => exact h.accept hm hr _
  | work ha => simpa [Event.heard?] using h.work ha
  | publish hj hm => simpa [Event.heard?] using h.publish hj hm

theorem booked_run (hr : (idle root store).run? identifier fails events = some s) :
    Booked (heard events) s := by
  induction events using List.reverseRecOn generalizing s with
  | nil =>
    cases hr
    exact booked_idle root store
  | append_singleton events e ih =>
    rw [run?_append] at hr
    obtain ⟨t, ht, hstep⟩ := Option.bind_eq_some_iff.1 hr
    exact heard_append events e ▸ (ih ht).step (step_of_step? hstep)

/-! ## What is left to do -/

/-- Nothing comes of the jobs that are done. -/
theorem filterMap_pending {β : Type} {f : Job → Option β} (hf : f .done = none) :
    s.pending.filterMap f = s.jobs.filterMap f := by
  rw [pending, List.filterMap_filter]
  refine List.filterMap_congr fun job _ => ?_
  cases job <;> simp [Job.isDone, hf]

/-- On each subject that was asked for, a reply was published or is pending. -/
theorem Booked.subjects_perm {heard : List Message} (h : Booked heard s) :
    (s.published.map Message.subject ++ s.pending.filterMap Job.subject?).Perm
      (heard.filterMap Message.reply) := by
  rw [filterMap_pending rfl]
  obtain ⟨results, hres⟩ := s.session.exists_agrees
  have hsubjects := (h.balance results hres).map Message.subject
  rw [List.map_append, List.map_filterMap, List.map_filterMap] at hsubjects
  simp only [Job.subject_replyBy, Message.subject_replyBy] at hsubjects
  rwa [Message.filterMap_numbered] at hsubjects

/-- A message that asked is answered or pending. -/
theorem Booked.length_eq {heard : List Message} (h : Booked heard s) :
    s.published.length + s.pending.length = (heard.filter Message.asks).length := by
  have hpending : (s.pending.filterMap Job.subject?).length = s.pending.length := by
    rw [filterMap_pending rfl, List.length_filterMap_eq_countP, List.countP_eq_length_filter]
    simp only [Job.isSome_subject?, pending]
  have hlength := h.subjects_perm.length_eq
  rw [List.length_append, List.length_map, hpending, List.length_filterMap_eq_countP] at hlength
  exact hlength.trans List.countP_eq_length_filter

/-- A reply asks for no reply. -/
theorem Booked.reply_eq_none {heard : List Message} (h : Booked heard s) {m : Message}
    (hm : m ∈ s.published) : m.reply = none := by
  obtain ⟨results, hres⟩ := s.session.exists_agrees
  obtain ⟨e, -, he⟩ := List.mem_filterMap.1
    ((h.balance results hres).mem_iff.1 (List.mem_append_left _ hm))
  exact Message.reply_of_replyBy he

theorem mem_pending {job : Job} : job ∈ s.pending ↔ job ∈ s.jobs ∧ job.isDone = false := by
  simp [pending]

/-- Where nothing is pending, all requests have ended. -/
theorem Booked.isOver {heard : List Message} (h : Booked heard s) (hrest : s.pending = []) :
    s.session.isOver = true := by
  refine List.all_eq_true.2 fun task hmem => ?_
  obtain ⟨i, ht⟩ := List.mem_iff_getElem?.1 hmem
  cases hr : s.session.result? i with
  | none =>
    obtain ⟨reply, hj⟩ := h.listed i (List.getElem?_eq_some_iff.1 ht).1 hr
    have hpending := mem_pending.2 ⟨hj, rfl⟩
    simp [hrest] at hpending
  | some result =>
    rw [Session.result?, ht] at hr
    cases task with
    | finished => rfl
    | ready | waiting | running | abandoned => cases hr

/-- A service with something pending can go on, and need not hear anything for that. -/
theorem exists_step (hr : (idle root store).run? identifier fails events = some s)
    (hpending : s.pending ≠ []) :
    ∃ e t, e.heard? = none ∧ s.step? identifier fails e = some t := by
  obtain ⟨job, hjob⟩ := List.exists_mem_of_ne_nil _ hpending
  obtain ⟨hmem, hdone⟩ := mem_pending.1 hjob
  obtain ⟨k, hk⟩ := List.mem_iff_getElem?.1 hmem
  have hpublish : ∀ m, s.message? job = some m →
      ∃ e t, e.heard? = none ∧ s.step? identifier fails e = some t := by
    intro m hm
    refine ⟨.publish k,
      { s with jobs := s.jobs.set k .done, published := s.published ++ [m] }, rfl, ?_⟩
    simp [step?, publish?, hk, hm]
  cases job with
  | refused reply reason => exact hpublish _ rfl
  | done => cases hdone
  | requested reply i =>
    cases hresult : s.session.result? i with
    | some result =>
      exact hpublish (.ofResponse reply (.ofResult result)) (by simp [message?, hresult])
    | none =>
      obtain ⟨-, hsession⟩ := session_run hr
      have hkept : s.session.Kept := (Session.kept_start _ _ _).run hsession
      have hover := hkept.isOver_eq_false ((booked_run hr).known reply i hmem) hresult
      obtain ⟨j, hj⟩ := Session.exists_canAdvance_of_run hsession hover
      obtain ⟨session, ha⟩ := hj.exists_advance fails
      exact ⟨.work j, { s with session }, rfl, by simp [step?, work?, ha]⟩

/-- Whatever happens is that a message is heard, a request goes on or a reply is published. -/
theorem length_events (hr : (idle root store).run? identifier fails events = some s) :
    events.length = (heard events).length + (worked events).length + s.published.length := by
  induction events using List.reverseRecOn generalizing s with
  | nil =>
    cases hr
    rfl
  | append_singleton events e ih =>
    rw [run?_append] at hr
    obtain ⟨t, ht, hstep⟩ := Option.bind_eq_some_iff.1 hr
    have hlength := ih ht
    rw [heard_append, worked_append]
    cases step_of_step? hstep with
    | ignore | refuse | accept | work | publish =>
      simp [Event.heard?, Event.worked?] at hlength ⊢
      omega

/-- Apart from what is heard, a few events for each message that asked are all that can happen. -/
theorem length_events_le (hr : (idle root store).run? identifier fails events = some s) :
    events.length ≤ (heard events).length +
      (Session.moveLimit + 1) * ((heard events).filter Message.asks).length := by
  obtain ⟨-, hsession⟩ := session_run hr
  have hworked := Session.length_moves_le hsession
  rw [List.length_map] at hworked
  have hrequests := Message.length_requestsOf_le root (heard events)
  have hmul := Nat.mul_le_mul_left Session.moveLimit hrequests
  have hbooked := (booked_run hr).length_eq
  have hlength := length_events hr
  rw [Nat.add_mul, Nat.one_mul]
  omega

theorem Step.keeps_published (hm : Step identifier fails s e t) : s.published <+: t.published := by
  cases hm with
  | ignore | refuse | accept | work => exact List.prefix_rfl
  | publish => exact List.prefix_append _ _

/-- Whatever was heard, all that is pending can be done, and what was published stays. -/
theorem exists_completion (hr : (idle root store).run? identifier fails events = some s) :
    ∃ (rest : List Event) (t : Serving), heard rest = [] ∧
      s.run? identifier fails rest = some t ∧ t.pending = [] ∧ s.published <+: t.published := by
  -- each event leaves fewer of those that can come of what was heard
  induction hleft : (heard events).length +
      (Session.moveLimit + 1) * ((heard events).filter Message.asks).length - events.length
    using Nat.strong_induction_on generalizing events s with
  | _ left ih =>
    by_cases hrest : s.pending = []
    · exact ⟨[], s, rfl, rfl, hrest, List.prefix_rfl⟩
    · obtain ⟨e, next, hquiet, hstep⟩ := exists_step hr hrest
      have hnext : (idle root store).run? identifier fails (events ++ [e]) = some next := by
        rw [run?_append, hr, Option.bind_some, hstep]
      have hheard : heard (events ++ [e]) = heard events := by
        rw [heard_append, hquiet, Option.toList_none, List.append_nil]
      have hlimit := length_events_le hnext
      rw [hheard, List.length_append, List.length_singleton] at hlimit
      obtain ⟨rest, t, hsilent, hrun, hdone, hprefix⟩ := ih _ (by
        rw [hheard, List.length_append, List.length_singleton]
        omega) hnext rfl
      refine ⟨e :: rest, t, ?_, ?_, hdone, (step_of_step? hstep).keeps_published.trans hprefix⟩
      · rw [heard, List.filterMap_cons_none hquiet]
        exact hsilent
      · rw [run?_cons, hstep]
        exact hrun

/-! ## Messages without a reply subject -/

/-- Whether an event is that a message is heard that asks for no reply. -/
def Event.isIdle : Event → Bool
  | .hear m => !m.asks
  | .work _ | .publish _ => false

theorem step?_of_isIdle (s : Serving) (he : e.isIdle = true) :
    s.step? identifier fails e = some s := by
  cases e with
  | hear m =>
    have hm : m.reply = none := by simpa [Event.isIdle, Message.asks] using he
    simp only [step?, hear, hm]
  | work | publish => cases he

/-- Messages that ask for no reply make no difference. -/
theorem run?_filter (s : Serving) (events : List Event) :
    s.run? identifier fails (events.filter fun e => !e.isIdle) =
      s.run? identifier fails events := by
  induction events generalizing s with
  | nil => rfl
  | cons e events ih =>
    cases he : e.isIdle with
    | true =>
      rw [List.filter_cons_of_neg (by simp [he]), run?_cons, step?_of_isIdle s he, Option.bind_some,
        ih]
    | false =>
      rw [List.filter_cons_of_pos (by simp [he]), run?_cons, run?_cons]
      exact Option.bind_congr fun t _ => ih t

end Serving
end SubnetRegistry
