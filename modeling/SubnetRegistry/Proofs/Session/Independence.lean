import Mathlib.Data.List.Induction
import Mathlib.Data.List.Sort
import SubnetRegistry.Proofs.Service.Effect
import SubnetRegistry.Proofs.Session.Serial

/-!
# Requests about different names

What comes of a request depends on what is stored under the name it addresses and on nothing else of
the store, and it leaves the other names alone. So of requests that are handled one at a time, those
about one name see nothing of the others, and all of them may be handled in any order that keeps,
for each name, the order of those about it.

## Main definitions

* `Request.address?` — the name that a request addresses.
* `Serial.handled?` — what came of a request.
* `Serial.Reordering` — an order that keeps the order of the requests about each name.

## Main statements

* `Program.WritesLast.run_congr`, `Service.handle_congr` — what is not stored under the name of a
  request makes no difference to it.
* `Service.handle_frame` — a request leaves other names alone.
* `Serial.run_filter` — handling the requests about one name is, to that name, handling all.
* `Serial.independent_of_order` — orders that keep the order of each name come to the same.
-/
namespace SubnetRegistry

variable {store store' : Store} {name : String} {r : Request} {s t : Service}

/-! ## What a request depends on -/

/-- A run depends on the store through what is stored under its name. -/
theorem Program.WritesLast.run_congr {p : Program} (h : p.WritesLast name)
    (hs : store.get? name = store'.get? name) (fails : Call → Option InfrastructureError) :
    (p.run fails store).effect name = (p.run fails store').effect name ∧
      (p.run fails store).calls = (p.run fails store').calls := by
  induction h with
  | answer result => exact ⟨congrArg (Effect.mk result) hs, rfl⟩
  | @get next h ih =>
    simp only [run, hs]
    split
    · exact ⟨congrArg (Effect.mk _) hs, rfl⟩
    · obtain ⟨heffect, hcalls⟩ := ih (store'.get? name)
      exact ⟨heffect, congrArg (List.cons (Call.get name)) hcalls⟩
  | put subnet result =>
    simp only [run]
    split
    · exact ⟨congrArg (Effect.mk _) hs, rfl⟩
    · simp [Run.effect, Run.after]
  | @delete next h =>
    have hpresent : store.contains name = store'.contains name := congrArg Option.isSome hs
    obtain ⟨result, hr⟩ := h (store'.contains name)
    simp only [run, hpresent, hr]
    split
    · exact ⟨congrArg (Effect.mk _) hs, rfl⟩
    · simp [Run.effect, Run.after]

/-- The name that a request with an identifier of its own addresses, if it passes its checks. -/
def Request.address? (r : Request) : Option String := (r.plan "").toOption.map Plan.name

namespace Request

theorem address?_eq_some_iff :
    r.address? = some name ↔ ∃ plan, r.plan "" = .ok plan ∧ plan.name = name := by
  rw [address?]
  cases r.plan "" <;> simp [Except.toOption]

theorem address?_eq_none_iff : r.address? = none ↔ ∃ e, r.plan "" = .error e := by
  rw [address?]
  cases r.plan "" <;> simp [Except.toOption]

end Request

namespace Service

/-- What comes of a request with an identifier of its own. -/
theorem handle_of_not_needsIdentifier (hr : r.needsIdentifier = false) (s : Service)
    (around : Surroundings) :
    s.handle around r =
      let run := Plan.runOf around.fails (r.plan "") s.store
      ⟨run.result, run.calls, ⟨run.store, s.issued⟩⟩ := by
  have hplan := Request.plan_of_not_needsIdentifier hr (around.identifier s.issued) ""
  simp only [handle, hr, Bool.false_eq_true, if_false, hplan, Plan.runOf]
  cases r.plan "" <;> rfl

/-- What is stored under other names than its own makes no difference to a request. -/
theorem handle_congr (hr : r.needsIdentifier = false) (ha : r.address? = some name)
    (hs : s.store.get? name = t.store.get? name) (around : Surroundings) :
    (s.handle around r).result = (t.handle around r).result ∧
      (s.handle around r).calls = (t.handle around r).calls ∧
      (s.handle around r).service.store.get? name =
        (t.handle around r).service.store.get? name := by
  obtain ⟨plan, hp, rfl⟩ := Request.address?_eq_some_iff.1 ha
  have hlast := (Request.plan_sound hp).writesLast
  obtain ⟨heffect, hcalls⟩ := hlast.run_congr hs around.fails
  simp only [handle_of_not_needsIdentifier hr, hp, Plan.runOf]
  exact ⟨congrArg Effect.result heffect, hcalls, congrArg Effect.stored heffect⟩

/-- A request leaves other names than its own alone, and all names if it addresses none. -/
theorem handle_frame (hr : r.needsIdentifier = false) (ha : r.address? ≠ some name) (s : Service)
    (around : Surroundings) :
    (s.handle around r).service.store.get? name = s.store.get? name := by
  rw [handle_of_not_needsIdentifier hr]
  cases hp : r.plan "" with
  | error e => rfl
  | ok plan =>
    have hne : name ≠ plan.name := fun hn => ha (Request.address?_eq_some_iff.2 ⟨plan, hp, hn.symm⟩)
    exact (Request.plan_sound hp).writesLast.get?_run hne

/-- A request that does not pass its checks is answered alike everywhere. -/
theorem handle_refused (hr : r.needsIdentifier = false) (ha : r.address? = none) :
    ∃ e, ∀ (s : Service) (around : Surroundings), s.handle around r = ⟨.error e, [], s⟩ := by
  obtain ⟨e, he⟩ := Request.address?_eq_none_iff.1 ha
  refine ⟨e, fun s around => handle_of_refused ?_ hr⟩
  exact (Request.plan_of_not_needsIdentifier hr _ _).trans he

end Service

/-! ## Requests one at a time -/

namespace Serial

variable {around : Nat → Surroundings} {requests : List Request} {order : List Nat} {i j n : Nat}

def handled? (serial : Serial) (i : Nat) : Option Handled := serial.handled.lookup i

theorem handled?_next (hi : requests[i]? = some r) (serial : Serial) (j : Nat) :
    (serial.next around requests i).handled? j =
      (serial.handled? j).or
        (if j = i then some (serial.service.handle (around i) r) else none) := by
  rw [next_eq hi, handled?, List.lookup_append]
  by_cases hj : j = i
  · simp [hj, handled?]
  · simp [hj, List.lookup_cons, beq_false_of_ne hj, handled?]

theorem handled?_next_of_ne (hi : requests[i]? = some r) (serial : Serial) (hj : j ≠ i) :
    (serial.next around requests i).handled? j = serial.handled? j := by
  rw [handled?_next hi, if_neg hj, Option.or_none]

/-- The same came of a request in both: its result and its calls. -/
def AgreeOn (i : Nat) (serial serial' : Serial) : Prop :=
  (serial.handled? i).map (fun h => (h.result, h.calls)) =
    (serial'.handled? i).map fun h => (h.result, h.calls)

/-- One more request keeps the agreement, if the same comes of it. -/
theorem AgreeOn.next {serial serial' : Serial} (h : AgreeOn j serial serial')
    (hi : requests[i]? = some r)
    (hresult : (serial.service.handle (around i) r).result =
      (serial'.service.handle (around i) r).result)
    (hcalls : (serial.service.handle (around i) r).calls =
      (serial'.service.handle (around i) r).calls) :
    AgreeOn j (serial.next around requests i) (serial'.next around requests i) := by
  rw [AgreeOn, handled?_next hi, handled?_next hi, Option.map_or, Option.map_or, h]
  split
  · simp only [Option.map_some, hresult, hcalls]
  · rfl

/-- Requests that are handled are handled in the given order. -/
theorem order_run (horder : ∀ i ∈ order, i < requests.length) :
    (run around requests store order).handled.map Prod.fst = order := by
  induction order using List.reverseRecOn with
  | nil => rfl
  | append_singleton order i ih =>
    have hi : requests[i]? = some _ := List.getElem?_eq_getElem (horder i (by simp))
    rw [run_append, next_eq hi, List.map_append, ih fun j hj => horder j (by simp [hj])]
    rfl

def address? (requests : List Request) (i : Nat) : Option String :=
  requests[i]?.bind Request.address?

/-- To a name and to the requests about it, it is all the same whether others are handled too. -/
theorem run_filter (hown : ∀ r ∈ requests, r.needsIdentifier = false)
    (horder : ∀ i ∈ order, i < requests.length) (around : Nat → Surroundings) (store : Store)
    (name : String) :
    let all := run around requests store order
    let few := run around requests store (order.filter fun i => address? requests i = some name)
    all.service.store.get? name = few.service.store.get? name ∧
      ∀ j, address? requests j = some name → AgreeOn j all few := by
  induction order using List.reverseRecOn with
  | nil => exact ⟨rfl, fun _ _ => rfl⟩
  | append_singleton order i ih =>
    obtain ⟨hstore, hagree⟩ := ih fun j hj => horder j (by simp [hj])
    have hlt : i < requests.length := horder i (by simp)
    have hi : requests[i]? = some requests[i] := List.getElem?_eq_getElem hlt
    have hr := hown _ (List.getElem_mem hlt)
    generalize requests[i] = r at hi hr
    intro all few
    have hri : address? requests i = r.address? := by rw [address?, hi, Option.bind_some]
    by_cases ha : r.address? = some name
    · have hfew : few = (run around requests store
          (order.filter fun i => address? requests i = some name)).next around requests i := by
        simp only [few, List.filter_append, List.filter_singleton, hri, ha, decide_true, cond_true,
          run_append]
      have hall : all = (run around requests store order).next around requests i := run_append ..
      obtain ⟨hresult, hcalls, hget⟩ := Service.handle_congr hr ha hstore (around i)
      rw [hall, hfew]
      refine ⟨?_, fun j hj => (hagree j hj).next hi hresult hcalls⟩
      simpa only [next_eq hi] using hget
    · have hfew : few =
          run around requests store (order.filter fun i => address? requests i = some name) := by
        simp only [few, List.filter_append, List.filter_singleton, hri, ha, decide_false,
          cond_false, List.append_nil]
      have hall : all = (run around requests store order).next around requests i := run_append ..
      rw [hall, hfew]
      refine ⟨?_, fun j hj => ?_⟩
      · rw [next_eq hi, Service.handle_frame hr ha]
        exact hstore
      · have hne : j ≠ i := by
          rintro rfl
          exact ha (hri.symm.trans hj)
        rw [AgreeOn, handled?_next_of_ne hi _ hne]
        exact hagree j hj

/-- Whatever came of a request came of it at some service. -/
theorem exists_of_handled? {h : Handled}
    (hh : (run around requests store order).handled? i = some h) :
    ∃ (r : Request) (s : Service), requests[i]? = some r ∧ h = s.handle (around i) r := by
  induction order using List.reverseRecOn with
  | nil => cases hh
  | append_singleton order j ih =>
    rw [run_append] at hh
    cases hj : requests[j]? with
    | none =>
      rw [next, hj] at hh
      exact ih hh
    | some r =>
      rw [handled?_next hj] at hh
      rcases Option.or_eq_some_iff.1 hh with hh | ⟨-, hh⟩
      · exact ih hh
      · split at hh
        · next hij =>
          subst hij
          exact ⟨r, _, hj, (Option.some.inj hh).symm⟩
        · cases hh

theorem exists_handled? (horder : ∀ i ∈ order, i < requests.length) (hi : i ∈ order) :
    ∃ h, (run around requests store order).handled? i = some h := by
  obtain ⟨e, he, rfl⟩ := List.mem_map.1 ((order_run horder).symm ▸ hi :
    i ∈ (run around requests store order).handled.map Prod.fst)
  exact Option.isSome_iff_exists.1 (List.lookup_isSome_iff.2 ⟨e, he, by simp⟩)

/-- All requests in an order in which those about any one name come as they do in the list. Those
that address none may come anywhere. -/
structure Reordering (requests : List Request) (order : List Nat) : Prop where
  perm : order.Perm (List.range requests.length)
  kept : order.Pairwise fun i j =>
    address? requests i ≠ none → address? requests i = address? requests j → i < j

theorem Reordering.filter_eq (h : Reordering requests order) (name : String) :
    (order.filter fun i => address? requests i = some name) =
      (List.range requests.length).filter fun i => address? requests i = some name := by
  have hkept : (order.filter fun i => address? requests i = some name).Pairwise (· < ·) := by
    refine (h.kept.filter _).imp_of_mem fun hi hj hij => ?_
    have hi : address? requests _ = some name := of_decide_eq_true (List.mem_filter.1 hi).2
    have hj : address? requests _ = some name := of_decide_eq_true (List.mem_filter.1 hj).2
    exact hij (by simp [hi]) (hi.trans hj.symm)
  refine hkept.eq_of_mem_iff (List.pairwise_lt_range.filter _) fun i => ?_
  rw [List.mem_filter, List.mem_filter, h.perm.mem_iff]

/-- A name, and the requests about it, see nothing of a reordering. -/
theorem Reordering.view (h : Reordering requests order)
    (hown : ∀ r ∈ requests, r.needsIdentifier = false) (around : Nat → Surroundings) (store : Store)
    (name : String) :
    let reordered := run around requests store order
    let listed := run around requests store (List.range requests.length)
    reordered.service.store.get? name = listed.service.store.get? name ∧
      ∀ j, address? requests j = some name → AgreeOn j reordered listed := by
  have hlisted : ∀ i ∈ List.range requests.length, i < requests.length := fun i => List.mem_range.1
  obtain ⟨hget, hagree⟩ :=
    run_filter hown (fun i hi => hlisted i (h.perm.mem_iff.1 hi)) around store name
  obtain ⟨hget', hagree'⟩ := run_filter hown hlisted around store name
  rw [h.filter_eq] at hget hagree
  exact ⟨hget.trans hget'.symm, fun j hj => (hagree j hj).trans (hagree' j hj).symm⟩

/-- Requests with identifiers of their own may be handled in any order that keeps the order of those
about each name: each has the same result and makes the same calls, and the same is stored at last.
No request touches what is stored under other names. -/
theorem independent_of_order (hown : ∀ r ∈ requests, r.needsIdentifier = false)
    (h : Reordering requests order) :
    let listed := run around requests store (List.range requests.length)
    let reordered := run around requests store order
    (∀ i < requests.length, ∃ a b, listed.handled? i = some a ∧ reordered.handled? i = some b ∧
        b.result = a.result ∧ b.calls = a.calls) ∧
      (∀ name, reordered.service.store.get? name = listed.service.store.get? name) ∧
      ∀ r ∈ requests, ∀ (s : Service) (around : Surroundings) (name : String),
        r.address? ≠ some name →
          (s.handle around r).service.store.get? name = s.store.get? name := by
  intro listed reordered
  have hview := h.view hown around store
  refine ⟨fun i hi => ?_, fun name => (hview name).1, fun r hr s around name ha =>
    Service.handle_frame (hown r hr) ha s around⟩
  obtain ⟨a, ha⟩ : ∃ a, listed.handled? i = some a :=
    exists_handled? (fun i => List.mem_range.1) (List.mem_range.2 hi)
  obtain ⟨b, hb⟩ : ∃ b, reordered.handled? i = some b :=
    exists_handled? (fun i hi => List.mem_range.1 (h.perm.mem_iff.1 hi))
      (h.perm.mem_iff.2 (List.mem_range.2 hi))
  refine ⟨a, b, ha, hb, ?_⟩
  obtain ⟨r, s, hr, hbr⟩ := exists_of_handled? hb
  cases haddress : r.address? with
  | some name =>
    have hagree := (hview name).2 i (by rw [address?, hr, Option.bind_some, haddress])
    rw [AgreeOn, ha, hb] at hagree
    simpa using hagree
  | none =>
    obtain ⟨r', s', hr', har⟩ := exists_of_handled? ha
    obtain rfl := Option.some.inj (hr.symm.trans hr')
    obtain ⟨e, he⟩ := Service.handle_refused (hown r (List.mem_of_getElem? hr)) haddress
    rw [har, hbr, he, he]
    exact ⟨rfl, rfl⟩

/-- Requests about two names, and one that addresses none. -/
def mixed : List Request :=
  [.create ⟨"", "a", { name := "" }⟩, .update ⟨{ name := "subnets/a" }, some ⟨["spec"]⟩, false⟩,
    .delete ⟨"subnets/b", true⟩, .get ⟨"subnets/A"⟩, .create ⟨"", "b", { name := "" }⟩,
    .get ⟨"subnets/a"⟩]

/-- The second creation fails. -/
def mixedAround (i : Nat) : Surroundings where
  identifier _ := "x"
  fails c := if i = 4 ∧ c.kind = .put then some ⟨.store, "full"⟩ else none

theorem independent_of_order_mixed :
    Reordering mixed [3, 2, 0, 4, 1, 5] ∧
      ∃ a b, (run mixedAround mixed .empty (List.range 6)).handled? 4 = some a ∧
        (run mixedAround mixed .empty [3, 2, 0, 4, 1, 5]).handled? 4 = some b ∧
        b.result = a.result ∧ b.calls = a.calls := by
  have h : Reordering mixed [3, 2, 0, 4, 1, 5] := ⟨by decide, by decide⟩
  exact ⟨h, (independent_of_order (by decide) h).1 4 (by decide)⟩

end Serial
end SubnetRegistry
