import SubnetRegistry.Proofs.Except
import SubnetRegistry.Service

/-!
# Programs that write last

All calls of a request are about one name, and only the last of them changes the store. So a request
that has made some of its calls is, as long as nobody else changes what is stored under its name, where
it would be if it had made them just now.

## Main definitions

* `Program.WritesLast` — the shape of the programs of requests.
* `Program.Resumes` — a program of which some calls have been made.
* `Plan.Sound` — what holds of the plan of every request.

## Main statements

* `Program.run_eq_step` — running a program is making its next call and running the rest.
* `Program.Resumes.get`, `Program.Resumes.run_eq` — reading does not lose the place, and with the last
  call all is done.
* `Request.plan_sound` — plans are sound.
-/
namespace SubnetRegistry

variable {fails : Call → Option InfrastructureError} {store : Store} {name : String}
  {p : Program} {c : Call}

namespace Program

/-- Programs whose calls are about one name and of which only the last one writes. -/
inductive WritesLast (name : String) : Program → Prop
  | answer (result : Result) : WritesLast name (.answer result)
  | get {next : Option Subnet → Program} (h : ∀ v, WritesLast name (next v)) :
      WritesLast name (.get name next)
  | put (subnet : Subnet) (result : Result) : WritesLast name (.put name subnet (.answer result))
  | delete {next : Bool → Program} (h : ∀ b, ∃ result, next b = .answer result) :
      WritesLast name (.delete name next)

def Run.afterAll (made : List Call) (r : Run) : Run := { r with calls := made ++ r.calls }

theorem Run.afterAll_after (made : List Call) (c : Call) (r : Run) :
    (r.after c).afterAll made = r.afterAll (made ++ [c]) := by
  simp [Run.afterAll, Run.after]

theorem run_answer (result : Result) (store : Store) :
    (answer result).run fails store = ⟨result, [], store⟩ := rfl

/-- Running a program is making its next call and running the rest. -/
theorem run_eq_step (h : p.call? = some c) :
    p.run fails store =
      ((p.step fails store).1.run fails (p.step fails store).2).after c := by
  cases p with
  | answer result => cases h
  | get name next | put name subnet next | delete name next =>
    cases h
    simp only [run, step]
    split <;> rfl

theorem exists_answer_of_call? (h : p.call? = none) : ∃ result, p = .answer result := by
  cases p with
  | answer result => exact ⟨result, rfl⟩
  | get | put | delete => cases h

theorem WritesLast.step (h : WritesLast name p) : WritesLast name (p.step fails store).1 := by
  cases h with
  | answer result => exact .answer result
  | get h =>
    simp only [Program.step]
    split
    · exact .answer _
    · exact h _
  | put subnet result =>
    simp only [Program.step]
    split <;> exact .answer _
  | @delete next h =>
    simp only [Program.step]
    split
    · exact .answer _
    · obtain ⟨result, hr⟩ := h (store.contains name)
      exact hr ▸ .answer result

/-- What is stored under other names is left alone. -/
theorem WritesLast.get?_step (h : WritesLast name p) {other : String} (ho : other ≠ name) :
    (p.step fails store).2.get? other = store.get? other := by
  cases h with
  | answer result => rfl
  | get h | put subnet result | delete h =>
    simp only [Program.step]
    split <;> simp [ho]

theorem WritesLast.get?_run (h : WritesLast name p) {other : String} (ho : other ≠ name) :
    (p.run fails store).store.get? other = store.get? other := by
  induction h generalizing store with
  | answer result => rfl
  | @get next h ih =>
    simp only [run]
    split
    · rfl
    · exact ih _
  | put subnet result =>
    simp only [run]
    split
    · rfl
    · exact (Store.get?_put _ _ _ _).trans (if_neg ho)
  | @delete next h =>
    obtain ⟨result, hr⟩ := h (store.contains name)
    simp only [run, hr]
    split
    · rfl
    · exact (Store.get?_delete _ _ _).trans (if_neg ho)

/-- A call is the last one, or it reads. -/
theorem WritesLast.step_cases (h : WritesLast name p) (hc : p.call? = some c) :
    (∃ result, (p.step fails store).1 = .answer result) ∨
      ∃ next, p = .get name next ∧ c = .get name ∧ fails (.get name) = none := by
  cases h with
  | answer result => cases hc
  | @get next h =>
    cases hc
    cases hf : fails (.get name) with
    | some e =>
      refine .inl ⟨.error e.toSubnetError, ?_⟩
      simp only [Program.step, hf]
    | none => exact .inr ⟨next, rfl, rfl, rfl⟩
  | put subnet result =>
    refine .inl ?_
    simp only [Program.step]
    split <;> exact ⟨_, rfl⟩
  | @delete next h =>
    obtain ⟨result, hr⟩ := h (store.contains name)
    refine .inl ?_
    simp only [Program.step, hr]
    split <;> exact ⟨_, rfl⟩

/-- The program `p` is what is left of `whole` after the calls `made`, where `stored` is what is
stored under the name. -/
def Resumes (fails : Call → Option InfrastructureError) (name : String) (stored : Option Subnet)
    (whole : Program) (made : List Call) (p : Program) : Prop :=
  ∀ store : Store, store.get? name = stored →
    whole.run fails store = (p.run fails store).afterAll made

theorem Resumes.start {stored : Option Subnet} : Resumes fails name stored p [] p :=
  fun _ _ => rfl

theorem step_get {next : Option Subnet → Program} (hf : fails (.get name) = none) :
    (Program.get name next).step fails store = (next (store.get? name), store) := by
  simp only [step, hf]

/-- Reading does not lose the place. -/
theorem Resumes.get {whole : Program} {made : List Call} {next : Option Subnet → Program}
    {stored : Option Subnet} (h : Resumes fails name stored whole made (.get name next))
    (hf : fails (.get name) = none) :
    Resumes fails name stored whole (made ++ [.get name]) (next stored) := by
  intro store hs
  rw [h store hs, ← Run.afterAll_after]
  simp only [run, hf, hs]

/-- With its last call a program has done what all of it would have done by itself just now. -/
theorem Resumes.run_eq {whole : Program} {made : List Call} {result : Result}
    (h : Resumes fails name (store.get? name) whole made p) (hc : p.call? = some c)
    (hl : (p.step fails store).1 = .answer result) :
    whole.run fails store = ⟨result, made ++ [c], (p.step fails store).2⟩ := by
  rw [h store rfl, run_eq_step hc, hl, run_answer, Run.afterAll_after]
  simp [Run.afterAll]

end Program

/-! ## Plans -/

/-- What holds of the plan of every request: its program makes a call and writes last, and where it
takes no lock it makes no other call and writes nothing. -/
structure Plan.Sound (plan : Plan) : Prop where
  writesLast : plan.program.WritesLast plan.name
  calls : ∃ c, plan.program.call? = some c
  unguarded : plan.guarded = false → ∀ fails store,
    ∃ result, plan.program.step fails store = (.answer result, store)

theorem Program.create_writesLast (name : String) (subnet : Subnet) :
    (Program.create name subnet).WritesLast name := by
  refine .get fun v => ?_
  cases v with
  | none => exact .put _ _
  | some existing => exact .answer _

theorem Program.fetch_writesLast (name : String) : (Program.fetch name).WritesLast name := by
  refine .get fun v => ?_
  cases v <;> exact .answer _

theorem Program.update_writesLast (r : UpdateRequest) :
    (Program.update r).WritesLast r.subnet.name := by
  refine .get fun v => ?_
  cases v with
  | none =>
    cases r.allowMissing
    · exact .answer _
    · exact .put _ _
  | some stored =>
    cases hm : FieldMask.apply r.updateMask stored r.subnet with
    | ok updated =>
      simp only [hm]
      exact .put _ _
    | error e =>
      simp only [hm]
      exact .answer _

theorem Program.remove_writesLast (r : DeleteRequest) : (Program.remove r).WritesLast r.name := by
  refine .delete fun present => ?_
  split <;> exact ⟨_, rfl⟩

theorem Program.fetch_step (fails : Call → Option InfrastructureError) (name : String)
    (store : Store) : ∃ result, (Program.fetch name).step fails store = (.answer result, store) := by
  simp only [fetch, step]
  split
  · exact ⟨_, rfl⟩
  · cases store.get? name <;> exact ⟨_, rfl⟩

/-! ## The four programs by themselves -/

/-- The subnets that these calls stored under a name. -/
def putsOf (fails : Call → Option InfrastructureError) (name : String) (calls : List Call) :
    List Subnet :=
  calls.filterMap fun
    | .put key subnet => if key = name ∧ fails (.put key subnet) = none then some subnet else none
    | .get _ | .delete _ => none

theorem putsOf_eq_nil {calls : List Call} (h : ∀ c ∈ calls, c.name ≠ name) :
    putsOf fails name calls = [] := by
  refine List.filterMap_eq_nil_iff.2 fun c hc => ?_
  cases c with
  | put key subnet => exact if_neg fun hk => h _ hc hk.1
  | get | delete => rfl

/-- One of these calls failed, which is the result. -/
def Failed (fails : Call → Option InfrastructureError) (calls : List Call) (result : Result) :
    Prop :=
  ∃ c ∈ calls, ∃ e, fails c = some e ∧ result = .error e.toSubnetError

theorem Program.WritesLast.name_of_mem_run (h : WritesLast name p)
    (hc : c ∈ (p.run fails store).calls) : c.name = name := by
  induction h generalizing store with
  | answer result => simp [run] at hc
  | @get next h ih =>
    simp only [run] at hc
    split at hc
    · exact List.mem_singleton.1 hc ▸ rfl
    · rcases List.mem_cons.1 hc with rfl | hc
      · rfl
      · exact ih _ hc
  | put subnet result =>
    simp only [run] at hc
    split at hc <;> exact List.mem_singleton.1 hc ▸ rfl
  | @delete next h =>
    obtain ⟨result, hr⟩ := h (store.contains name)
    simp only [run, hr] at hc
    split at hc <;> exact List.mem_singleton.1 hc ▸ rfl

/-- A creation fails, finds a subnet or stores its own. -/
theorem Program.create_run_cases (fails : Call → Option InfrastructureError) (name : String)
    (subnet : Subnet) (store : Store) :
    let r := (Program.create name subnet).run fails store
    (r.store = store ∧ putsOf fails name r.calls = [] ∧ (Failed fails r.calls r.result ∨
        ∃ existing, store.get? name = some existing ∧ r.result = .ok (.subnet existing))) ∨
      (store.get? name = none ∧ r.store = store.put name subnet ∧
        putsOf fails name r.calls = [subnet] ∧ r.result = .ok (.subnet subnet)) := by
  intro r
  cases hf : fails (.get name) with
  | some e =>
    have hr : r = ⟨.error e.toSubnetError, [.get name], store⟩ := by simp only [r, create, run, hf]
    rw [hr]
    exact .inl ⟨rfl, rfl, .inl ⟨_, List.mem_singleton_self _, e, hf, rfl⟩⟩
  | none =>
    cases hs : store.get? name with
    | some existing =>
      have hr : r = ⟨.ok (.subnet existing), [.get name], store⟩ := by
        simp only [r, create, run, hf, hs, Run.after]
      rw [hr]
      exact .inl ⟨rfl, rfl, .inr ⟨existing, rfl, rfl⟩⟩
    | none =>
      cases hp : fails (.put name subnet) with
      | some e =>
        have hr : r = ⟨.error e.toSubnetError, [.get name, .put name subnet], store⟩ := by
          simp only [r, create, run, hf, hs, hp, Run.after]
        rw [hr]
        exact .inl ⟨rfl, by simp [putsOf, hp], .inl ⟨.put name subnet, by simp, e, hp, rfl⟩⟩
      | none =>
        have hr : r = ⟨.ok (.subnet subnet), [.get name, .put name subnet],
            store.put name subnet⟩ := by
          simp only [r, create, run, hf, hs, hp, Run.after]
        rw [hr]
        exact .inr ⟨rfl, rfl, by simp [putsOf, hp], rfl⟩

/-- Fetching stores nothing. -/
theorem Program.fetch_run_eq (fails : Call → Option InfrastructureError) (name : String)
    (store : Store) :
    ∃ result, (Program.fetch name).run fails store = ⟨result, [.get name], store⟩ := by
  simp only [fetch, run]
  split
  · exact ⟨_, rfl⟩
  · cases store.get? name <;> exact ⟨_, rfl⟩

/-- An update of a present name fails or stores the masked update, which is its result. -/
theorem Program.update_run_present (fails : Call → Option InfrastructureError) {u : UpdateRequest}
    {store : Store} {stored : Subnet} (hs : store.get? u.subnet.name = some stored) :
    let r := (Program.update u).run fails store
    (∃ e, r.result = .error e ∧ r.store = store) ∨
      ∃ updated, FieldMask.apply u.updateMask stored u.subnet = .ok updated ∧
        r.result = .ok (.subnet updated) ∧ r.store = store.put u.subnet.name updated := by
  intro r
  cases hf : fails (.get u.subnet.name) with
  | some e => exact .inl ⟨e.toSubnetError, by simp [r, update, run, hf], by simp [r, update, run, hf]⟩
  | none =>
    cases hm : FieldMask.apply u.updateMask stored u.subnet with
    | error e =>
      exact .inl ⟨e, by simp [r, update, run, hf, hs, hm, Run.after],
        by simp [r, update, run, hf, hs, hm, Run.after]⟩
    | ok updated =>
      cases hp : fails (.put u.subnet.name updated) with
      | some e =>
        exact .inl ⟨e.toSubnetError, by simp [r, update, run, hf, hs, hm, hp, Run.after],
          by simp [r, update, run, hf, hs, hm, hp, Run.after]⟩
      | none =>
        exact .inr ⟨updated, rfl, by simp [r, update, run, hf, hs, hm, hp, Run.after],
          by simp [r, update, run, hf, hs, hm, hp, Run.after]⟩

/-- An update of an absent name that is not to store it leaves the store alone. -/
theorem Program.update_run_absent (fails : Call → Option InfrastructureError) {u : UpdateRequest}
    {store : Store} (hs : store.get? u.subnet.name = none) (ha : u.allowMissing = false) :
    ((Program.update u).run fails store).store = store := by
  simp only [update, run]
  split
  · rfl
  · simp [hs, ha, run, Run.after]

theorem Request.plan_update {fresh : String} {u : UpdateRequest} {plan : Plan}
    (h : (Request.update u).plan fresh = .ok plan) : plan = ⟨u.subnet.name, true, .update u⟩ := by
  obtain ⟨_, _, h⟩ := exists_of_bind_eq_ok h
  obtain ⟨_, _, h⟩ := exists_of_bind_eq_ok h
  exact (Except.ok.inj h).symm

theorem Request.plan_delete {fresh : String} {d : DeleteRequest} {plan : Plan}
    (h : (Request.delete d).plan fresh = .ok plan) : plan = ⟨d.name, true, .remove d⟩ := by
  obtain ⟨_, _, h⟩ := exists_of_bind_eq_ok h
  exact (Except.ok.inj h).symm

/-- What a request is going to do, by its kind. -/
theorem Request.plan_cases {fresh : String} {r : Request} {plan : Plan}
    (h : r.plan fresh = .ok plan) :
    (∃ c id, r = .create c ∧ c.identifier fresh = .ok id ∧
        plan = ⟨Name.build Name.collection id, true,
          .create (Name.build Name.collection id)
            (c.subnet.named (Name.build Name.collection id))⟩) ∨
      (∃ g, r = .get g ∧ plan = ⟨g.name, false, .fetch g.name⟩) ∨
      (∃ u, r = .update u ∧ plan = ⟨u.subnet.name, true, .update u⟩) ∨
      ∃ d, r = .delete d ∧ plan = ⟨d.name, true, .remove d⟩ := by
  cases r with
  | create c =>
    obtain ⟨id, hid, h⟩ := exists_of_bind_eq_ok h
    obtain ⟨_, _, h⟩ := exists_of_bind_eq_ok h
    exact .inl ⟨c, id, rfl, hid, (Except.ok.inj h).symm⟩
  | get g =>
    obtain ⟨_, _, h⟩ := exists_of_bind_eq_ok h
    exact .inr (.inl ⟨g, rfl, (Except.ok.inj h).symm⟩)
  | update u => exact .inr (.inr (.inl ⟨u, rfl, plan_update h⟩))
  | delete d => exact .inr (.inr (.inr ⟨d, rfl, plan_delete h⟩))

theorem Request.plan_sound {fresh : String} {r : Request} {plan : Plan}
    (h : r.plan fresh = .ok plan) : plan.Sound := by
  rcases plan_cases h with ⟨c, id, -, -, rfl⟩ | ⟨g, -, rfl⟩ | ⟨u, -, rfl⟩ | ⟨d, -, rfl⟩
  · exact ⟨Program.create_writesLast _ _, ⟨_, rfl⟩, nofun⟩
  · exact ⟨Program.fetch_writesLast _, ⟨_, rfl⟩, fun _ fails => Program.fetch_step fails g.name⟩
  · exact ⟨Program.update_writesLast u, ⟨_, rfl⟩, nofun⟩
  · exact ⟨Program.remove_writesLast d, ⟨_, rfl⟩, nofun⟩

end SubnetRegistry
