import Mathlib.Data.List.Induction
import SubnetRegistry.Proofs.Session.Serial

/-!
# Linearizability

When no request of a session is under way any more, all of them have the results, have made the calls
and have left the store that they would have one at a time, in the order of their last calls.

## Main definitions

* `Session.SerialOrder` — an order of the requests that were not abandoned.
* `Session.Linearized` — what is said of a session in which all requests have ended.

## Main statements

* `Session.linearizable` — side by side is as good as one at a time.
-/
namespace SubnetRegistry

variable {identifier : Nat → String} {fails : Nat → Call → Option InfrastructureError}
  {requests : List Request} {store store' : Store} {order : List Nat} {i : Nat}

/-! ## Orders with requests that did not pass their checks -/

namespace Serial.Gives

variable {result? : Nat → Option Result} {callsOf : Nat → List Call}

/-- A request that did not pass its checks may be handled at any place. -/
theorem of_filter {p : Nat → Bool} (hin : ∀ i ∈ order, i < requests.length)
    (hrefused : ∀ i ∈ order, p i = false → ∀ r, requests[i]? = some r →
      ∃ e, r.plan (identifier i) = .error e ∧ result? i = some (.error e) ∧ callsOf i = [])
    (h : (run (.ofTask identifier fails) requests store (order.filter p)).Gives store'
      (order.filter p) result? callsOf) :
    (run (.ofTask identifier fails) requests store order).Gives store' order result? callsOf := by
  induction order using List.reverseRecOn generalizing store' with
  | nil => exact h
  | append_singleton order i ih =>
    replace ih := fun {st : Store} => @ih st (fun j hj => hin j (List.mem_append_left _ hj))
      fun j hj => hrefused j (List.mem_append_left _ hj)
    obtain ⟨r, hi⟩ : ∃ r, requests[i]? = some r :=
      ⟨_, List.getElem?_eq_getElem (hin i (by simp))⟩
    rw [run_append, next_iff hi]
    cases hp : p i with
    | true =>
      have hfilter : (order ++ [i]).filter p = order.filter p ++ [i] := by simp [hp]
      rw [hfilter, run_append, next_iff hi] at h
      obtain ⟨before, h, hrun⟩ := h
      exact ⟨before, ih h, hrun⟩
    | false =>
      have hfilter : (order ++ [i]).filter p = order.filter p := by simp [hp]
      obtain ⟨e, he, hres, hcalls⟩ := hrefused i (by simp) hp _ hi
      rw [hfilter] at h
      exact ⟨store', ih h, _, rfl, by rw [he, Plan.runOf], by rw [he, Plan.runOf, hres],
        by rw [he, Plan.runOf, hcalls]⟩

/-- What holds at first and is kept by every request handled holds at last. -/
theorem induction {P : List Nat → Store → Prop} (hin : ∀ i ∈ order, i < requests.length)
    (h : (run (.ofTask identifier fails) requests store order).Gives store' order result? callsOf)
    (nil : P [] store)
    (snoc : ∀ (order : List Nat) (i : Nat) (r : Request) (before : Store) (run : Program.Run),
      P order before → requests[i]? = some r →
      Plan.runOf (fails i) (r.plan (identifier i)) before = run → result? i = some run.result →
      callsOf i = run.calls → P (order ++ [i]) run.store) : P order store' := by
  induction order using List.reverseRecOn generalizing store' with
  | nil =>
    rw [← h.store]
    exact nil
  | append_singleton order i ih =>
    obtain ⟨r, hi⟩ : ∃ r, requests[i]? = some r :=
      ⟨_, List.getElem?_eq_getElem (hin i (by simp))⟩
    rw [run_append, next_iff hi] at h
    obtain ⟨before, h, run, hrun, rfl, hres, hcalls⟩ := h
    have hbefore := ih (fun j hj => hin j (List.mem_append_left _ hj)) h
    exact snoc order i _ before run hbefore hi hrun hres hcalls

end Serial.Gives

/-! ## Names that are only created, and names that are never deleted -/

/-- Request `i` passes its checks and is about this name. -/
def Asks (identifier : Nat → String) (requests : List Request) (i : Nat) (r : Request)
    (name : String) : Prop :=
  requests[i]? = some r ∧ ∃ plan, r.plan (identifier i) = .ok plan ∧ plan.name = name

/-- A request that is not about a name leaves it alone. -/
theorem Request.runOf_frame {fails : Call → Option InfrastructureError} {fresh name : String}
    {r : Request} (h : ∀ plan, r.plan fresh = .ok plan → plan.name ≠ name) (store : Store) :
    let run := Plan.runOf fails (r.plan fresh) store
    run.store.get? name = store.get? name ∧ putsOf fails name run.calls = [] := by
  intro run
  cases hp : r.plan fresh with
  | error e =>
    have hrun : run = ⟨.error e, [], store⟩ := by simp only [run, Plan.runOf, hp]
    rw [hrun]
    exact ⟨rfl, rfl⟩
  | ok plan =>
    have hrun : run = plan.program.run fails store := by simp only [run, Plan.runOf, hp]
    have hw := (Request.plan_sound hp).writesLast
    rw [hrun]
    refine ⟨hw.get?_run (Ne.symm (h plan hp)), putsOf_eq_nil fun c hc => ?_⟩
    rw [hw.name_of_mem_run hc]
    exact h plan hp

/-- A run leaves a name alone, or it stores the first subnet there. -/
def StoresFirst (fails : Call → Option InfrastructureError) (name : String) (before : Store)
    (run : Program.Run) : Prop :=
  (run.store.get? name = before.get? name ∧ putsOf fails name run.calls = []) ∨
    (before.get? name = none ∧ ∃ body, run.store.get? name = some body ∧
      putsOf fails name run.calls = [body])

/-- A result is the failure of one of the calls, or what is stored under a name. -/
def FailsOrReturns (fails : Call → Option InfrastructureError) (name : String) (calls : List Call)
    (result : Result) (store : Store) : Prop :=
  Failed fails calls result ∨ ∃ body, store.get? name = some body ∧ result = .ok (.subnet body)

/-- What is stored stays, so who returned it still does. -/
theorem FailsOrReturns.after {fails fails' : Call → Option InfrastructureError} {name : String}
    {calls : List Call} {result : Result} {before : Store} {run : Program.Run}
    (h : FailsOrReturns fails name calls result before) (hs : StoresFirst fails' name before run) :
    FailsOrReturns fails name calls result run.store := by
  refine h.imp_right ?_
  rintro ⟨body, hbody, hret⟩
  rcases hs with ⟨hsame, -⟩ | ⟨hnone, -⟩
  · exact ⟨body, hsame.trans hbody, hret⟩
  · rw [hnone] at hbody
    cases hbody

/-- A request that creates a name or fetches it stores a subnet only where there is none. -/
theorem Request.runOf_create {fails : Call → Option InfrastructureError} {fresh : String}
    {r : Request} {plan : Plan} (hp : r.plan fresh = .ok plan)
    (hr : (∃ c, r = .create c) ∨ ∃ g, r = .get g) (store : Store) :
    let run := Plan.runOf fails (r.plan fresh) store
    StoresFirst fails plan.name store run ∧
      ∀ c, r = .create c → FailsOrReturns fails plan.name run.calls run.result run.store := by
  intro run
  have hrun : run = plan.program.run fails store := by simp only [run, Plan.runOf, hp]
  rw [hrun]
  rcases plan_cases hp with ⟨c, id, rfl, -, rfl⟩ | ⟨g, rfl, rfl⟩ | ⟨u, rfl, rfl⟩ | ⟨d, rfl, rfl⟩
  · rcases Program.create_run_cases fails (Name.build Name.collection id)
        (c.subnet.named (Name.build Name.collection id)) store with
      ⟨hstore, hputs, hfound⟩ | ⟨habsent, hstore, hputs, hres⟩
    · refine ⟨.inl ⟨by rw [hstore], hputs⟩, fun _ _ => ?_⟩
      unfold FailsOrReturns
      rw [hstore]
      exact hfound
    · have hstored := (Store.get?_put store (Name.build Name.collection id)
        (Name.build Name.collection id) (c.subnet.named (Name.build Name.collection id))).trans
        (if_pos rfl)
      rw [← hstore] at hstored
      exact ⟨.inr ⟨habsent, _, hstored, hputs⟩, fun _ _ => .inr ⟨_, hstored, hres⟩⟩
  · obtain ⟨result, hfetch⟩ := Program.fetch_run_eq fails g.name store
    rw [hfetch]
    refine ⟨.inl ⟨rfl, rfl⟩, fun c hc => ?_⟩
    cases hc
  · rcases hr with ⟨c, hc⟩ | ⟨g, hg⟩
    · cases hc
    · cases hg
  · rcases hr with ⟨c, hc⟩ | ⟨g, hg⟩
    · cases hc
    · cases hg

/-- A request stores a subnet only where there is none, where a name is at most created. -/
theorem Request.runOf_storesFirst {name : String} {r : Request} (hi : requests[i]? = some r)
    (hasks : ∀ i r, Asks identifier requests i r name → (∃ c, r = .create c) ∨ ∃ g, r = .get g)
    (store : Store) :
    let run := Plan.runOf (fails i) (r.plan (identifier i)) store
    StoresFirst (fails i) name store run ∧
      ∀ c, Asks identifier requests i (.create c) name →
        FailsOrReturns (fails i) name run.calls run.result run.store := by
  intro run
  by_cases hask : ∃ plan, r.plan (identifier i) = .ok plan ∧ plan.name = name
  · obtain ⟨plan, hp, rfl⟩ := hask
    obtain ⟨hdone, hcreate⟩ := runOf_create hp (hasks i r ⟨hi, plan, hp, rfl⟩) store
    refine ⟨hdone, fun c hc => hcreate c ?_⟩
    exact Option.some.inj (hi.symm.trans hc.1)
  · obtain ⟨hsame, hnone⟩ := runOf_frame (fun plan hp hn => hask ⟨plan, hp, hn⟩) store
    refine ⟨.inl ⟨hsame, hnone⟩, fun c hc => absurd hc.2 ?_⟩
    cases Option.some.inj (hi.symm.trans hc.1)
    exact hask

namespace Serial.Gives

variable {result? : Nat → Option Result} {callsOf : Nat → List Call} {name : String}

/-- Of the requests to create an absent name one stores its subnet, and each of them returns that
subnet or fails. -/
theorem created (hin : ∀ i ∈ order, i < requests.length)
    (h : (run (.ofTask identifier fails) requests store order).Gives store' order result? callsOf)
    (habsent : store.get? name = none)
    (hasks : ∀ i r, Asks identifier requests i r name → (∃ c, r = .create c) ∨ ∃ g, r = .get g) :
    (order.flatMap fun i => putsOf (fails i) name (callsOf i)) = (store'.get? name).toList ∧
      ∀ i ∈ order, ∀ c, Asks identifier requests i (.create c) name →
        ∃ result, result? i = some result ∧
          FailsOrReturns (fails i) name (callsOf i) result store' := by
  refine h.induction (P := fun order st =>
    (order.flatMap fun i => putsOf (fails i) name (callsOf i)) = (st.get? name).toList ∧
      ∀ i ∈ order, ∀ c, Asks identifier requests i (.create c) name →
        ∃ result, result? i = some result ∧
          FailsOrReturns (fails i) name (callsOf i) result st) hin ?_ ?_
  · rw [habsent]
    exact ⟨rfl, nofun⟩
  · rintro order i r before run ⟨hputs, hcreates⟩ hi rfl hres hcalls
    obtain ⟨hdone, hcreate⟩ := Request.runOf_storesFirst hi hasks before
    constructor
    · rw [List.flatMap_append, hputs, List.flatMap_singleton, hcalls]
      rcases hdone with ⟨hsame, hnil⟩ | ⟨hnone, body, hbody, hone⟩
      · rw [hnil, hsame, List.append_nil]
      · rw [hone, hnone, hbody]
        rfl
    · intro j hj c hc
      rcases List.mem_append.1 hj with hj | hj
      · obtain ⟨result, hresult, hcase⟩ := hcreates j hj c hc
        exact ⟨result, hresult, hcase.after hdone⟩
      · cases List.mem_singleton.1 hj
        exact ⟨_, hres, hcalls ▸ hcreate c hc⟩

end Serial.Gives

/-- A stored subnet after a request, which changes it if it is an update of the name that succeeded. -/
def Request.merge (name : String) (stored : Subnet) : Request → Result → Subnet
  | .update u, .ok _ =>
    if u.subnet.name = name then (FieldMask.apply u.updateMask stored u.subnet).toOption.getD stored
    else stored
  | _, _ => stored

/-- A stored subnet after request `i`, where the results are these. -/
def mergeOf (requests : List Request) (result? : Nat → Option Result) (name : String)
    (stored : Subnet) (i : Nat) : Subnet :=
  match requests[i]?, result? i with
  | some r, some result => r.merge name stored result
  | _, _ => stored

/-- A request that does not delete a present name merges what it has into it. -/
theorem Request.runOf_present {fails : Call → Option InfrastructureError} {fresh : String}
    {r : Request} {plan : Plan} (hp : r.plan fresh = .ok plan) (hr : ∀ d, r ≠ .delete d)
    {store : Store} {stored : Subnet} (hs : store.get? plan.name = some stored) :
    let run := Plan.runOf fails (r.plan fresh) store
    run.store.get? plan.name = some (r.merge plan.name stored run.result) := by
  intro run
  have hrun : run = plan.program.run fails store := by simp only [run, Plan.runOf, hp]
  rw [hrun]
  rcases plan_cases hp with ⟨c, id, rfl, -, rfl⟩ | ⟨g, rfl, rfl⟩ | ⟨u, rfl, rfl⟩ | ⟨d, rfl, rfl⟩
  · rcases Program.create_run_cases fails (Name.build Name.collection id)
        (c.subnet.named (Name.build Name.collection id)) store with
      ⟨hstore, -⟩ | ⟨habsent, -⟩
    · rw [hstore]
      exact hs
    · rw [hs] at habsent
      cases habsent
  · obtain ⟨result, hfetch⟩ := Program.fetch_run_eq fails g.name store
    rw [hfetch]
    exact hs
  · rcases Program.update_run_present fails hs with
      ⟨e, hres, hstore⟩ | ⟨updated, happly, hres, hstore⟩
    · rw [hres, hstore]
      exact hs
    · rw [hres, hstore, Store.get?_put, if_pos rfl]
      simp only [merge, happly, if_true]
      rfl
  · exact absurd rfl (hr d)

theorem Request.merge_of_ne {fresh name : String} {r : Request}
    (h : ∀ plan, r.plan fresh = .ok plan → plan.name ≠ name) {result : Result}
    (hr : ∀ e, r.plan fresh = .error e → result = .error e) (stored : Subnet) :
    r.merge name stored result = stored := by
  cases r with
  | create | get | delete => rfl
  | update u =>
    cases hp : (Request.update u).plan fresh with
    | error e =>
      rw [hr e hp]
      rfl
    | ok plan =>
      cases result with
      | error e => rfl
      | ok outcome =>
        have hname : plan.name = u.subnet.name := by rw [plan_update hp]
        exact if_neg (hname ▸ h plan hp)

namespace Serial.Gives

variable {result? : Nat → Option Result} {callsOf : Nat → List Call} {name : String}

/-- All that updates do to a name that is never deleted is in what is stored there at last. -/
theorem merged (hin : ∀ i ∈ order, i < requests.length)
    (h : (run (.ofTask identifier fails) requests store order).Gives store' order result? callsOf)
    {stored : Subnet} (hs : store.get? name = some stored)
    (hasks : ∀ i d, ¬ Asks identifier requests i (.delete d) name) :
    store'.get? name = some (order.foldl (mergeOf requests result? name) stored) := by
  refine h.induction
    (P := fun order st => st.get? name = some (order.foldl (mergeOf requests result? name) stored))
    hin hs ?_
  intro order i r before run hbefore hi hrun hres hcalls
  rw [List.foldl_append]
  simp only [List.foldl_cons, List.foldl_nil, mergeOf, hi, hres]
  by_cases hask : ∃ plan, r.plan (identifier i) = .ok plan ∧ plan.name = name
  · obtain ⟨plan, hp, rfl⟩ := hask
    rw [← hrun]
    refine Request.runOf_present hp ?_ hbefore
    rintro d rfl
    exact hasks i d ⟨hi, plan, hp, rfl⟩
  · have hne : ∀ plan, r.plan (identifier i) = .ok plan → plan.name ≠ name :=
      fun plan hp hn => hask ⟨plan, hp, hn⟩
    obtain ⟨hsame, -⟩ := Request.runOf_frame hne before
    rw [Request.merge_of_ne hne, ← hrun]
    · exact hsame.trans hbefore
    · intro e he
      rw [← hrun, he, Plan.runOf]

end Serial.Gives
namespace Session

variable {s s' : Session}

/-- A session in which all requests have ended. -/
theorem Accounted.over_cases {plans : List (Except SubnetError Plan)} (h : Accounted fails plans s)
    (ho : s.isOver = true) {plan? : Except SubnetError Plan} (hp : plans[i]? = some plan?) :
    (s.tasks[i]? = some .abandoned ∧ s.callsOf i = []) ∨
      ∃ result, s.tasks[i]? = some (.finished result) ∧
        ((∃ e, plan? = .error e ∧ result = .error e ∧ s.callsOf i = []) ∨ s.callsOf i ≠ []) := by
  have hi : i < s.tasks.length := h.length ▸ (List.getElem?_eq_some_iff.1 hp).1
  have ht : s.tasks[i]? = some s.tasks[i] := List.getElem?_eq_getElem hi
  have hover : (s.tasks[i]).isOver = true := List.all_eq_true.1 ho _ (List.getElem_mem hi)
  have hfol := h.follows i plan? _ hp ht
  rw [ht]
  generalize s.tasks[i] = task at hover hfol
  match plan?, task, hfol with
  | .error e, .finished result, hfol =>
    exact .inr ⟨result, rfl, .inl ⟨e, rfl, hfol.1, hfol.2.2⟩⟩
  | .ok plan, .finished result, hfol => exact .inr ⟨result, rfl, .inr hfol.2⟩
  | .ok plan, .abandoned, hfol => exact .inl ⟨rfl, hfol.2⟩
  | .ok plan, .ready _, _ | .ok plan, .waiting _, _ | .ok plan, .running .., _ => cases hover

/-- An order of the requests that were not abandoned in which those that called the store are in the
order of their last calls. -/
structure SerialOrder (s : Session) (order : List Nat) : Prop where
  nodup : order.Nodup
  mem_iff : ∀ i, i ∈ order ↔ i < s.tasks.length ∧ s.tasks[i]? ≠ some .abandoned
  callers : (order.filter fun i => i ∈ s.callers) = s.callers

namespace Linear

theorem result?_eq_answer? (ho : s.isOver = true) (i : Nat) : s.result? i = s.answer? i := by
  rw [result?, answer?]
  cases ht : s.tasks[i]? with
  | none => rfl
  | some task =>
    have hover : task.isOver = true := List.all_eq_true.1 ho _ (List.mem_of_getElem? ht)
    cases task with
    | finished | abandoned => rfl
    | ready | waiting | running => cases hover

theorem lt_of_mem_callers (h : Linear identifier fails requests store s) (hi : i ∈ s.callers) :
    i < requests.length := by
  obtain ⟨e, he, rfl⟩ := List.mem_map.1 (List.mem_dedup.1 hi)
  simpa [plansOf] using h.accounted.callers e he

/-- Who has called the store and is not under way any more has a result. -/
theorem finished_of_mem_callers (h : Linear identifier fails requests store s)
    (ho : s.isOver = true) (hi : i ∈ s.callers) :
    ∃ result, s.tasks[i]? = some (.finished result) := by
  have hp : (plansOf identifier requests)[i]? = some _ :=
    List.getElem?_eq_getElem (by simpa [plansOf] using h.lt_of_mem_callers hi)
  rcases h.accounted.over_cases ho hp with ⟨-, hnil⟩ | ⟨result, ht, -⟩
  · exact absurd hnil (mem_callers.1 hi)
  · exact ⟨result, ht⟩

theorem decisions_eq (h : Linear identifier fails requests store s) (ho : s.isOver = true) :
    s.decisions = s.callers := by
  refine List.filter_eq_self.2 fun i hi => ?_
  obtain ⟨result, ht⟩ := h.finished_of_mem_callers ho hi
  rw [answer?, ht]
  rfl

/-- The requests that called the store, one at a time. -/
theorem gives_callers (h : Linear identifier fails requests store s) (ho : s.isOver = true) :
    (Serial.run (.ofTask identifier fails) requests store s.callers).Gives s.store s.callers
      s.result? s.callsOf := by
  have hagrees := h.agrees
  rw [h.decisions_eq ho] at hagrees
  exact hagrees.congr (fun i _ => result?_eq_answer? ho i) fun _ _ => rfl

theorem gives (h : Linear identifier fails requests store s) (ho : s.isOver = true)
    (horder : s.SerialOrder order) :
    (Serial.run (.ofTask identifier fails) requests store order).Gives s.store order s.result?
      s.callsOf := by
  have hlength : s.tasks.length = requests.length := by
    simpa [plansOf] using h.accounted.length
  refine Serial.Gives.of_filter (fun i hi => hlength ▸ ((horder.mem_iff i).1 hi).1) ?_
    (horder.callers.symm ▸ h.gives_callers ho)
  intro i hi hno r hr
  have hnil : s.callsOf i = [] := by
    by_contra hmade
    simp [mem_callers.2 hmade] at hno
  have hp : (plansOf identifier requests)[i]? = some (r.plan (identifier i)) := by
    rw [getElem?_plansOf, hr]
    rfl
  rcases h.accounted.over_cases ho hp with ⟨hgone, -⟩ | ⟨result, ht, ⟨e, he, rfl, -⟩ | hmade⟩
  · exact absurd hgone ((horder.mem_iff i).1 hi).2
  · exact ⟨e, he, by rw [result?, ht], hnil⟩
  · exact absurd hnil hmade

/-- Those who called the store, and then those who did not have to. -/
theorem exists_serialOrder (h : Linear identifier fails requests store s) (ho : s.isOver = true) :
    ∃ order, s.SerialOrder order := by
  have hlength : s.tasks.length = requests.length := by
    simpa [plansOf] using h.accounted.length
  let rest := (List.range s.tasks.length).filter fun i => i ∉ s.callers ∧ (s.result? i).isSome
  have hrest : ∀ i, i ∈ rest ↔ i < s.tasks.length ∧ i ∉ s.callers ∧ (s.result? i).isSome := by
    simp [rest]
  refine ⟨s.callers ++ rest, ?_, fun i => ⟨fun hi => ?_, ?_⟩, ?_⟩
  · refine List.nodup_append'.2 ⟨List.nodup_dedup _, List.nodup_range.filter _, ?_⟩
    intro i hcalled hi
    exact ((hrest i).1 hi).2.1 hcalled
  · rcases List.mem_append.1 hi with hi | hi
    · obtain ⟨result, ht⟩ := h.finished_of_mem_callers ho hi
      refine ⟨hlength ▸ h.lt_of_mem_callers hi, fun hgone => ?_⟩
      rw [ht] at hgone
      cases hgone
    · obtain ⟨hlt, -, hsome⟩ := (hrest i).1 hi
      refine ⟨hlt, fun hgone => ?_⟩
      simp [result?, hgone] at hsome
  · rintro ⟨hi, hkept⟩
    have hp : (plansOf identifier requests)[i]? = some _ :=
      List.getElem?_eq_getElem (by simpa [plansOf] using hlength ▸ hi)
    rcases h.accounted.over_cases ho hp with ⟨hgone, -⟩ | ⟨result, ht, -⟩
    · exact absurd hgone hkept
    · by_cases hcalled : i ∈ s.callers
      · exact List.mem_append_left _ hcalled
      · refine List.mem_append_right _ ((hrest i).2 ⟨hi, hcalled, ?_⟩)
        rw [result?, ht]
        rfl
  · have hcallers : s.callers.filter (fun i => i ∈ s.callers) = s.callers :=
      List.filter_eq_self.2 fun i hi => by simpa using hi
    have hnone : rest.filter (fun i => i ∈ s.callers) = [] :=
      List.filter_eq_nil_iff.2 fun i hi => by simpa using ((hrest i).1 hi).2.1
    rw [List.filter_append, hcallers, hnone, List.append_nil]

end Linear

/-- An update that is not to store an absent name makes no absent name present. -/
theorem Accounted.get?_eq_none_of_update
    (h : Accounted fails (plansOf identifier requests) s) (hm : Step fails s (.advance i) s')
    {u : UpdateRequest} (hu : requests[i]? = some (.update u)) (ha : u.allowMissing = false)
    {name : String} (hn : s.store.get? name = none) : s'.store.get? name = none := by
  cases hm with
  | ask | enter | take | finish => exact hn
  | @call _ guarded program c ht hc =>
    obtain ⟨plan, hp, hsound, -, -, hgoing⟩ := h.exists_sound_plan ht (by simp)
    obtain ⟨hw, hres⟩ := hgoing.resumes hsound hc
    have hplan : (Request.update u).plan (identifier i) = .ok plan := by
      rw [getElem?_plansOf, hu] at hp
      exact Option.some.inj hp
    cases Request.plan_update hplan
    by_cases hname : name = u.subnet.name
    · subst hname
      rcases hw.step_cases hc with ⟨result, hlast⟩ | ⟨next, rfl, -, hf⟩
      · -- The last call leaves what the whole update leaves, and that is what was there.
        have hwhole := congrArg Program.Run.store (hres.run_eq hc hlast)
        rw [Program.update_run_absent (fails i) hn ha] at hwhole
        have hkept := congrArg (fun store : Store => store.get? u.subnet.name) hwhole
        exact hkept.symm.trans hn
      · have hstore : ((Program.get u.subnet.name next).step (fails i) s.store).2 = s.store := by
          rw [Program.step_get hf]
        exact hstore.symm ▸ hn
    · exact (hw.get?_step hname).trans hn

/-- What is said of a session in which all requests have ended. -/
structure Linearized (store : Store) (identifier : Nat → String) (requests : List Request)
    (fails : Nat → Call → Option InfrastructureError) (moves : List Move) (s : Session) : Prop where
  /-- There is an order of the requests that were not abandoned. -/
  exists_order : ∃ order, s.SerialOrder order
  /-- One at a time in such an order, the requests have the same results, make the same calls and
  leave the same store. -/
  gives : ∀ order, s.SerialOrder order →
    (Serial.run (.ofTask identifier fails) requests store order).Gives s.store order s.result?
      s.callsOf
  /-- Under an absent name that is only created, at most one subnet is stored, and each request to
  create it returns that subnet or fails. -/
  created : ∀ name, store.get? name = none →
    (∀ i r, Asks identifier requests i r name → (∃ c, r = .create c) ∨ ∃ g, r = .get g) →
    (s.callers.flatMap fun i => putsOf (fails i) name (s.callsOf i)) =
        (s.store.get? name).toList ∧
      ∀ i c, Asks identifier requests i (.create c) name → s.tasks[i]? ≠ some .abandoned →
        ∃ result, s.result? i = some result ∧ (Failed (fails i) (s.callsOf i) result ∨
          ∃ body, s.store.get? name = some body ∧ result = .ok (.subnet body))
  /-- What is stored at last under a present name that is never deleted is all the updates that
  succeeded, one upon the other. -/
  merged : ∀ name stored, store.get? name = some stored →
    (∀ i d, ¬ Asks identifier requests i (.delete d) name) →
    s.store.get? name = some (s.callers.foldl (mergeOf requests s.result? name) stored)
  /-- No step of an update that is not to store an absent name makes an absent name present. -/
  kept_absent : ∀ (before after : List Move) (i : Nat) (t t' : Session) (u : UpdateRequest),
    moves = before ++ .advance i :: after →
    (start store identifier requests).run? fails before = some t →
    t.move? fails (.advance i) = some t' → requests[i]? = some (.update u) →
    u.allowMissing = false → ∀ name, t.store.get? name = none → t'.store.get? name = none

/-- Requests side by side are as good as one at a time. -/
theorem linearizable {moves : List Move}
    (hr : (start store identifier requests).run? fails moves = some s) (ho : s.isOver = true) :
    Linearized store identifier requests fails moves s := by
  have h : Linear identifier fails requests store s :=
    (linear_start store identifier requests).run hr
  have hin : ∀ i ∈ s.callers, i < requests.length := fun i hi => h.lt_of_mem_callers hi
  refine ⟨h.exists_serialOrder ho, fun order => h.gives ho, fun name habsent hasks => ?_,
    fun name stored hs hasks => (h.gives_callers ho).merged hin hs hasks, ?_⟩
  · obtain ⟨hputs, hcreates⟩ := (h.gives_callers ho).created hin habsent hasks
    refine ⟨hputs, fun i c hc hkept => hcreates i (mem_callers.2 ?_) c hc⟩
    obtain ⟨hi, plan, hplan, -⟩ := hc
    have hp : (plansOf identifier requests)[i]? = some (.ok plan) := by
      rw [getElem?_plansOf, hi, ← hplan]
      rfl
    rcases h.accounted.over_cases ho hp with ⟨hgone, -⟩ | ⟨result, -, ⟨e, he, -⟩ | hmade⟩
    · exact absurd hgone hkept
    · cases he
    · exact hmade
  · intro before after i t t' u _ hrun hmove hu ha name hn
    have ht := (accounted_start store identifier requests).run hrun
    exact ht.get?_eq_none_of_update (step_of_move? hmove) hu ha hn

/-- Two requests to create one name, an update of it and a deletion that is given up. -/
def raced : List Request :=
  [.create ⟨"", "a", { name := "", spec := some { vpcNameRef := "v" } }⟩,
    .create ⟨"", "a", { name := "" }⟩,
    .update ⟨{ name := "subnets/a", status := some { hwIndex := 7 } }, some ⟨["status"]⟩, false⟩,
    .delete ⟨"subnets/a", false⟩]

/-- The moves of the four, who wait for each other. -/
def racedMoves : List Move :=
  [.advance 1, .advance 0, .advance 3, .advance 2, .advance 1, .abandon 3, .advance 1, .advance 1,
    .advance 0, .advance 0, .advance 0, .advance 2, .advance 2, .advance 2, .advance 2]

theorem linearizable_raced :
    ∃ s, (start .empty (fun _ => "x") raced).run? (fun _ _ => none) racedMoves = some s ∧
      s.isOver = true ∧
      Linearized .empty (fun _ => "x") raced (fun _ _ => none) racedMoves s :=
  ⟨_, rfl, rfl, linearizable rfl rfl⟩

end Session
end SubnetRegistry
