import Mathlib.Data.List.Perm.Basic
import SubnetRegistry.Proofs.Serving.Jobs
import SubnetRegistry.Proofs.Session.Linearizable

/-!
# Every message is answered once

A service that hears messages while it works publishes what it would publish if it served the
messages one at a time. This is one reply to each message that asks for one, and its payload is the
JSON text of the response to the subject and the payload of that message. Since a reply asks for none,
no echo of a reply is answered again.

## Main definitions

* `InTurn` — messages served one at a time.
* `Delivered` — what is heard where a broker delivers messages from outside and echoes of replies.
* `Serving.AnswersOnce` — a run in which each message that asks for a reply is answered once.

## Main statements

* `InTurn.next_eq_serve` — `Service.serve` serves messages one at a time.
* `InTurn.run_requests` — serving messages is handling their requests.
* `Serving.answers_once` — each message that asks is answered once.
-/
namespace SubnetRegistry

variable {identifier : Nat → String} {fails : Nat → Call → Option InfrastructureError}
  {root : String} {store : Store} {results : Nat → Result}

/-- A service that has served some messages, and what it has published. -/
structure InTurn where
  service : Service
  published : List Message

namespace InTurn

variable {around : Nat → Surroundings} {turn : InTurn} {messages : List (Nat × Message)}
  {requests : List Request}

/-- One more message served. If it asks for a reply, the text of the response to it is published on
the subject it names, and this is the one thing published. -/
def next (around : Nat → Surroundings) (root : String) (turn : InTurn) (e : Nat × Message) :
    InTurn :=
  match e.2.reply with
  | none => turn
  | some reply =>
    let answered := turn.service.answerSubject (around e.1) root e.2.subject e.2.payload
    ⟨answered.service, turn.published ++ [⟨reply, answered.response.toJson.bytes, none⟩]⟩

/-- Messages served one at a time in the given order, each in the surroundings of its number. -/
def run (around : Nat → Surroundings) (root : String) (store : Store)
    (messages : List (Nat × Message)) : InTurn :=
  messages.foldl (next around root) ⟨⟨store, 0⟩, []⟩

theorem run_append (around : Nat → Surroundings) (root : String) (store : Store)
    (messages : List (Nat × Message)) (e : Nat × Message) :
    run around root store (messages ++ [e]) =
      (run around root store messages).next around root e := by
  simp [run]

theorem next_eq_serve (around : Nat → Surroundings) (root : String) (turn : InTurn)
    (e : Nat × Message) :
    let served := turn.service.serve (around e.1) root e.2
    turn.next around root e = ⟨served.service, turn.published ++ served.publish.toList⟩ := by
  cases hm : e.2.reply with
  | none => simp only [next, Service.serve, hm, Option.toList_none, List.append_nil]
  | some reply => simp only [next, Service.serve, hm, Message.ofResponse, Option.toList_some]

/-- A message that is no request is answered the same at any time, if at all. -/
theorem next_of_no_request {e : Nat × Message} (he : e.2.request? root = none) (turn : InTurn)
    (results : Nat → Result) :
    turn.next around root e =
      ⟨turn.service, turn.published ++ (Message.replyBy root results e).toList⟩ := by
  cases hm : e.2.reply with
  | none => simp only [next, Message.replyBy, hm, Option.map_none, Option.toList_none, List.append_nil]
  | some reply =>
    cases hr : Request.ofMessage root e.2.subject e.2.payload with
    | error reason =>
      simp only [next, Service.answerSubject, hm, hr, Service.reply, Message.replyBy,
        Message.ofResponse, Option.map_some, Option.toList_some]
    | ok r => cases he.symm.trans (Message.request?_eq_some_iff.2 ⟨reply, hm, hr⟩)

/-- A message that is a request is answered as the request is handled. -/
theorem next_of_request {e : Nat × Message} {r : Request} (he : e.2.request? root = some r)
    {turn : InTurn} (hresult : results e.1 = (turn.service.handle (around e.1) r).result) :
    turn.next around root e =
      ⟨(turn.service.handle (around e.1) r).service,
        turn.published ++ (Message.replyBy root results e).toList⟩ := by
  obtain ⟨reply, hm, hr⟩ := Message.request?_eq_some_iff.1 he
  simp only [next, Service.answerSubject, hm, hr, Service.reply, Message.replyBy,
    Message.ofResponse, Option.map_some, Option.toList_some, hresult]

theorem run_refused (h : ∀ e ∈ messages, e.2.request? root = none) (results : Nat → Result) :
    run around root store messages =
      ⟨⟨store, 0⟩, messages.filterMap (Message.replyBy root results)⟩ := by
  induction messages using List.reverseRecOn with
  | nil => rfl
  | append_singleton messages e ih =>
    rw [run_append, ih fun x hx => h x (List.mem_append_left _ hx),
      next_of_no_request (h e (by simp)) _ results, filterMap_append_singleton]

/-- Serving messages that are requests is handling the requests. -/
theorem run_requests {others asked : List (Nat × Message)}
    (hothers : ∀ e ∈ others, e.2.request? root = none)
    (hasked : ∀ e ∈ asked, ∃ r, e.2.request? root = some r ∧ requests[e.1]? = some r)
    (hresults : ∀ e ∈ (Serial.run around requests store (asked.map Prod.fst)).handled,
      results e.1 = e.2.result) :
    run around root store (others ++ asked) =
      ⟨(Serial.run around requests store (asked.map Prod.fst)).service,
        (others ++ asked).filterMap (Message.replyBy root results)⟩ := by
  induction asked using List.reverseRecOn with
  | nil =>
    rw [List.append_nil, run_refused hothers results]
    rfl
  | append_singleton asked e ih =>
    obtain ⟨r, he, hr⟩ := hasked e (by simp)
    have hserial : Serial.run around requests store ((asked ++ [e]).map Prod.fst) =
        (Serial.run around requests store (asked.map Prod.fst)).next around requests e.1 := by
      rw [List.map_append, List.map_singleton, Serial.run_append]
    rw [hserial, Serial.next_eq hr] at hresults ⊢
    rw [← List.append_assoc, run_append, ih (fun x hx => hasked x (List.mem_append_left _ hx))
      fun x hx => hresults x (List.mem_append_left _ hx), filterMap_append_singleton]
    have hlast := hresults (e.1, _) (List.mem_append_right _ (List.mem_singleton_self _))
    exact next_of_request he hlast

end InTurn

/-- What a service hears where a broker delivers, once each, what others send to it and what it
publishes on subjects of its own. -/
def Delivered (root : String) (sent heard published : List Message) : Prop :=
  ∃ echoes, heard.Perm (sent ++ echoes) ∧
    echoes.Subperm (published.filter fun m => Subject.matches? (Subject.all root) m.subject)

namespace Serving

variable {s : Serving} {events : List Event}

/-- The requests among numbered messages can be put in any order. -/
theorem exists_arranged {order : List Nat} {heard : List Message}
    (horder : order.Perm (List.range (Message.requestsOf root heard).length)) :
    ∃ others asked : List (Nat × Message),
      (others ++ asked).Perm (Message.numbered root heard) ∧ asked.map Prod.fst = order ∧
      (∀ e ∈ others, e.2.request? root = none) ∧
      ∀ e ∈ asked, ∃ r, e.2.request? root = some r ∧
        (Message.requestsOf root heard)[e.1]? = some r := by
  rw [← Message.map_fst_numbered] at horder
  obtain ⟨asked, rfl, hasked⟩ := (congrFun₂ (List.eq_map_comp_perm Prod.fst) order _).mpr horder
  refine ⟨(Message.numbered root heard).filter fun e => !(e.2.request? root).isSome, asked, ?_, rfl,
    fun e he => ?_, fun e he => ?_⟩
  · exact (hasked.append_left _).trans
      (List.perm_append_comm.trans (List.filter_append_perm _ _))
  · simpa using (List.mem_filter.1 he).2
  · obtain ⟨hmem, hsome⟩ := List.mem_filter.1 (hasked.mem_iff.1 he)
    obtain ⟨r, hr⟩ := Option.isSome_iff_exists.1 hsome
    exact ⟨r, hr, Message.getElem?_requestsOf hmem hr⟩

/-- Where nothing is pending, what was published is what comes of the messages one at a time. -/
theorem exists_inTurn (hr : (idle root store).run? identifier fails events = some s)
    (hrest : s.pending = []) :
    ∃ arranged, arranged.Perm (Message.numbered root (heard events)) ∧
      let turn := InTurn.run (.ofTask identifier fails) root store arranged
      s.published.Perm turn.published ∧ s.session.store = turn.service.store := by
  obtain ⟨hroot, hsession⟩ := session_run hr
  have hbooked := booked_run hr
  have hover := hbooked.isOver hrest
  have hlinear : Session.Linear identifier fails (Message.requestsOf root (heard events)) store
      s.session := (Session.linear_start store identifier _).run hsession
  obtain ⟨order, horder⟩ := hlinear.exists_serialOrder hover
  have hgives := hlinear.gives hover horder
  have hkept : s.session.Kept := (Session.kept_start _ _ _).run hsession
  have hperm : order.Perm (List.range (Message.requestsOf root (heard events)).length) := by
    refine (List.perm_ext_iff_of_nodup horder.nodup List.nodup_range).2 fun i => ?_
    rw [horder.mem_iff, List.mem_range, hbooked.tasks, hroot]
    exact and_iff_left (hkept i)
  obtain ⟨others, asked, harranged, hasked, hothers, hrequests⟩ := exists_arranged hperm
  obtain ⟨results, hres⟩ := s.session.exists_agrees
  have hresults : ∀ e ∈ (Serial.run (.ofTask identifier fails)
      (Message.requestsOf root (heard events)) store (asked.map Prod.fst)).handled,
      results e.1 = e.2.result := by
    rw [hasked]
    exact fun e he => hres e.1 _ (hgives.results e he)
  have hjobs : s.jobs.filterMap (Job.replyBy results) = [] := by
    rw [← filterMap_pending rfl, hrest]
    rfl
  have hbalance := hbooked.balance results hres
  rw [hjobs, List.append_nil, hroot] at hbalance
  refine ⟨others ++ asked, harranged, ?_⟩
  rw [InTurn.run_requests hothers hrequests hresults, hasked]
  exact ⟨hbalance.trans (harranged.filterMap _).symm, hgives.store.symm⟩

/-- A run in which each message that asks for a reply is answered once. -/
structure AnswersOnce (identifier : Nat → String)
    (fails : Nat → Call → Option InfrastructureError) (root : String) (store : Store)
    (events : List Event) (s : Serving) : Prop where
  /-- Whatever was heard, more can be heard. -/
  hears : ∀ m, ∃ t, s.step? identifier fails (.hear m) = some t
  /-- Messages that ask for no reply make no difference. -/
  ignores :
    (idle root store).run? identifier fails (events.filter fun e => !e.isIdle) = some s
  /-- A reply asks for no reply. -/
  asks_nothing : ∀ m ∈ s.published, m.reply = none
  /-- On each subject that was asked for, a reply was published or is pending, and not both. -/
  subjects : (s.published.map Message.subject ++ s.pending.filterMap Job.subject?).Perm
    ((heard events).filterMap Message.reply)
  /-- While something is pending, something can be done about it. -/
  goes_on : s.pending ≠ [] → ∃ e t, e.heard? = none ∧ s.step? identifier fails e = some t
  /-- There is not much to be done for a message. -/
  bounded : events.length ≤ (heard events).length +
    (Session.moveLimit + 1) * ((heard events).filter Message.asks).length
  /-- All that is pending can be done, and what is published stays. -/
  completes : ∃ (rest : List Event) (t : Serving), heard rest = [] ∧
    s.run? identifier fails rest = some t ∧ t.pending = [] ∧ s.published <+: t.published
  /-- Where nothing is pending, these are the replies that are published, and the store is the one
  that is left, where the messages are served one at a time in some order. -/
  in_turn : s.pending = [] → ∃ arranged, arranged.Perm (Message.numbered root (heard events)) ∧
    let turn := InTurn.run (.ofTask identifier fails) root store arranged
    s.published.Perm turn.published ∧ s.session.store = turn.service.store
  /-- One at a time is how `Service.serve` serves them. -/
  serves : ∀ (around : Nat → Surroundings) (turn : InTurn) (e : Nat × Message),
    let served := turn.service.serve (around e.1) root e.2
    turn.next around root e = ⟨served.service, turn.published ++ served.publish.toList⟩
  /-- Echoes of replies are not answered, and so there is an end to them. -/
  echoes : ∀ sent, Delivered root sent (heard events) s.published →
    s.published.length + s.pending.length = (sent.filter Message.asks).length ∧
      events.length ≤ sent.length + (Session.moveLimit + 2) * (sent.filter Message.asks).length

/-- Of what a broker delivers, only what was sent from outside asks for replies. -/
theorem Booked.length_of_delivered {sent heard : List Message} (h : Booked heard s)
    (hd : Delivered root sent heard s.published) :
    (heard.filter Message.asks).length = (sent.filter Message.asks).length ∧
      heard.length ≤ sent.length + s.published.length := by
  obtain ⟨echoes, hperm, hechoes⟩ := hd
  have hsilent : echoes.filter Message.asks = [] := by
    refine List.filter_eq_nil_iff.2 fun m hm => ?_
    have hpublished := (List.mem_filter.1 (hechoes.subset hm)).1
    simp [Message.asks, h.reply_eq_none hpublished]
  constructor
  · rw [(hperm.filter _).length_eq, List.filter_append, hsilent, List.append_nil]
  · rw [hperm.length_eq, List.length_append]
    exact Nat.add_le_add_left (hechoes.length_le.trans (List.length_filter_le _ _)) _

/-- Each message that asks for a reply is answered once. -/
theorem answers_once (hr : (idle root store).run? identifier fails events = some s) :
    AnswersOnce identifier fails root store events s := by
  have hbooked := booked_run hr
  have hbound := length_events_le hr
  refine ⟨fun m => ⟨_, rfl⟩, (run?_filter _ events).trans hr, fun m => hbooked.reply_eq_none,
    hbooked.subjects_perm, exists_step hr, hbound, exists_completion hr, exists_inTurn hr,
    fun around => InTurn.next_eq_serve around root, fun sent hsent => ?_⟩
  obtain ⟨hasked, hheard⟩ := hbooked.length_of_delivered hsent
  have hcount := hbooked.length_eq
  rw [hasked] at hbound hcount
  refine ⟨hcount, ?_⟩
  rw [Nat.add_mul] at hbound ⊢
  omega

/-- A subnet is to be created, with the reply sent to where subnets are asked for. What follows
cannot be read, names no operation, or asks for no reply. -/
def selfAddressed : List Message :=
  [⟨"opi.subnet.create", (Request.create ⟨"", "a", { name := "" }⟩).toJson.bytes,
      some "opi.subnet.get"⟩,
    ⟨"opi.subnet.update", [0xff], some "inbox.1"⟩, ⟨"opi.subnet.list", [], some "inbox.2"⟩,
    ⟨"opi.subnet.delete", (Request.delete ⟨"subnets/a", true⟩).toJson.bytes, none⟩]

/-- The reply to the first of them. -/
def selfAddressedReply : Message :=
  ⟨"opi.subnet.get", (Response.subnet { name := "subnets/a" }).toJson.bytes, none⟩

/-- The service hears them, and then the echo of the first reply. -/
def selfAddressedEvents : List Event :=
  selfAddressed.map .hear ++
    [.publish 2, .work 0, .work 0, .work 0, .work 0, .publish 0, .hear selfAddressedReply,
      .publish 1]

theorem answers_once_selfAddressed :
    ∃ s, (idle "opi" .empty).run? (fun _ => "x") (fun _ _ => none) selfAddressedEvents = some s ∧
      s.pending = [] ∧ Delivered "opi" selfAddressed (heard selfAddressedEvents) s.published ∧
      AnswersOnce (fun _ => "x") (fun _ _ => none) "opi" .empty selfAddressedEvents s := by
  have hrun : ((idle "opi" .empty).run? (fun _ => "x") (fun _ _ => none) selfAddressedEvents).map
      (fun s => (s.pending.length, s.published.filter fun m =>
        Subject.matches? (Subject.all "opi") m.subject)) = some (0, [selfAddressedReply]) := by
    decide +kernel
  obtain ⟨s, hr, hs⟩ := Option.map_eq_some_iff.1 hrun
  obtain ⟨hpending, hpublished⟩ := Prod.mk.inj hs
  refine ⟨s, hr, List.length_eq_zero_iff.1 hpending, ⟨[selfAddressedReply], .of_eq rfl, ?_⟩,
    answers_once hr⟩
  rw [hpublished]

end Serving
end SubnetRegistry
