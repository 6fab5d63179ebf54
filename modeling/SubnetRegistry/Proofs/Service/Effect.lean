import Mathlib.Logic.Function.Basic
import SubnetRegistry.Proofs.Service.Program

/-!
# What requests do

A request that passes its checks addresses one name. If none of its calls fails, what it does is told
by the table of the four operations from what is stored under that name; if one does, nothing is
changed. Nothing is ever changed under other names.

## Main definitions

* `Effect`, `Request.effect` — the table: the result, and what is then stored under the name.

## Main statements

* `Request.effect_cases` — the table refuses, stores what it returns, or deletes.
* `Program.WritesLast.run_cases` — a run fails without a trace, or is the run in which nothing fails.
* `Request.run_eq_effect` — that run does what the table says.
* `Service.handle_of_refused` — a request that does not pass its checks does nothing.
* `Service.handle_cases` — any other fails in a call, or does what the table says.
* `Service.handle_undisturbed`, `Service.handle_calm` — it does if it passes its checks and no call
  fails.
-/
namespace SubnetRegistry

variable {fails : Call → Option InfrastructureError} {store : Store} {name fresh : String}
  {r : Request} {plan : Plan}

/-- What comes of a request: its result, and what is then stored under its name. -/
structure Effect where
  result : Result
  stored : Option Subnet

/-- What a request does under the name it addresses, by what is stored there. -/
def Request.effect (r : Request) (name : String) (stored : Option Subnet) : Effect :=
  match r, stored with
  | .create _, some existing => ⟨.ok (.subnet existing), some existing⟩
  | .create c, none => ⟨.ok (.subnet (c.subnet.named name)), some (c.subnet.named name)⟩
  | .get _, some existing => ⟨.ok (.subnet existing), some existing⟩
  | .get _, none => ⟨.error (.notFound name), none⟩
  | .update u, some existing =>
    match FieldMask.apply u.updateMask existing u.subnet with
    | .ok updated => ⟨.ok (.subnet updated), some updated⟩
    | .error e => ⟨.error e, some existing⟩
  | .update u, none =>
    if u.allowMissing then ⟨.ok (.subnet u.subnet), some u.subnet⟩
    else ⟨.error (.notFound name), none⟩
  | .delete _, some _ => ⟨.ok .empty, none⟩
  | .delete d, none =>
    if d.allowMissing then ⟨.ok .empty, none⟩ else ⟨.error (.notFound name), none⟩

/-- The table ends with an error and changes nothing, returns the subnet that is stored, or deletes. -/
theorem Request.effect_cases (r : Request) (name : String) (stored : Option Subnet) :
    (∃ e, r.effect name stored = ⟨.error e, stored⟩) ∨
      (∃ v, r.effect name stored = ⟨.ok (.subnet v), some v⟩ ∧ (∀ d, r ≠ .delete d) ∧
        ∀ g, r = .get g → stored = some v) ∨
      ∃ d, r = .delete d ∧ r.effect name stored = ⟨.ok .empty, none⟩ := by
  cases r with
  | create c => cases stored <;> exact .inr (.inl ⟨_, rfl, nofun, nofun⟩)
  | get g =>
    cases stored with
    | none => exact .inl ⟨_, rfl⟩
    | some existing => exact .inr (.inl ⟨existing, rfl, nofun, fun _ _ => rfl⟩)
  | update u =>
    cases stored with
    | none =>
      simp only [effect]
      split
      · exact .inr (.inl ⟨_, rfl, nofun, nofun⟩)
      · exact .inl ⟨_, rfl⟩
    | some existing =>
      simp only [effect]
      split
      · exact .inr (.inl ⟨_, rfl, nofun, nofun⟩)
      · exact .inl ⟨_, rfl⟩
  | delete d =>
    cases stored with
    | none =>
      simp only [effect]
      split
      · exact .inr (.inr ⟨d, rfl, rfl⟩)
      · exact .inl ⟨_, rfl⟩
    | some existing => exact .inr (.inr ⟨d, rfl, rfl⟩)

/-! ## Programs -/

namespace Program

variable {p : Program} {c : Call} {e : InfrastructureError}

theorem run_of_fails (hc : p.call? = some c) (hf : fails c = some e) :
    p.run fails store = ⟨.error e.toSubnetError, [c], store⟩ := by
  cases p with
  | answer result => cases hc
  | get name next | put name subnet next | delete name next =>
    cases hc
    simp only [run, hf]

theorem failed_of_fails (hc : p.call? = some c) (hf : fails c = some e) :
    Failed fails (p.run fails store).calls (p.run fails store).result ∧
      (p.run fails store).store = store := by
  rw [run_of_fails hc hf]
  exact ⟨⟨c, List.mem_singleton_self c, e, hf, rfl⟩, rfl⟩

/-- A run fails without a trace, or is the run in which nothing fails. -/
theorem WritesLast.run_cases (h : p.WritesLast name) (fails : Call → Option InfrastructureError)
    (store : Store) :
    (Failed fails (p.run fails store).calls (p.run fails store).result ∧
        (p.run fails store).store = store) ∨
      p.run fails store = p.run (fun _ => none) store := by
  induction h with
  | answer result => exact .inr rfl
  | @get next h ih =>
    cases hf : fails (.get name) with
    | some e => exact .inl (failed_of_fails rfl hf)
    | none =>
      simp only [run, hf]
      rcases ih (store.get? name) with ⟨⟨c, hc, hfailed⟩, hstore⟩ | heq
      · exact .inl ⟨⟨c, List.mem_cons_of_mem _ hc, hfailed⟩, hstore⟩
      · exact .inr (congrArg (Run.after (.get name)) heq)
  | put subnet result =>
    cases hf : fails (.put name subnet) with
    | some e => exact .inl (failed_of_fails rfl hf)
    | none => exact .inr (by simp only [run, hf])
  | @delete next h =>
    obtain ⟨result, hr⟩ := h (store.contains name)
    cases hf : fails (.delete name) with
    | some e => exact .inl (failed_of_fails rfl hf)
    | none => exact .inr (by simp only [run, hf, hr])

def Run.effect (run : Run) (name : String) : Effect := ⟨run.result, run.store.get? name⟩

theorem effect_create (c : CreateRequest) (name : String) (store : Store) :
    ((create name (c.subnet.named name)).run (fun _ => none) store).effect name =
      (Request.create c).effect name (store.get? name) := by
  cases hs : store.get? name <;> simp [create, run, Run.after, Run.effect, Request.effect, hs]

theorem effect_fetch (g : GetRequest) (store : Store) :
    ((fetch g.name).run (fun _ => none) store).effect g.name =
      (Request.get g).effect g.name (store.get? g.name) := by
  cases hs : store.get? g.name <;> simp [fetch, run, Run.after, Run.effect, Request.effect, hs]

theorem effect_update (u : UpdateRequest) (store : Store) :
    ((update u).run (fun _ => none) store).effect u.subnet.name =
      (Request.update u).effect u.subnet.name (store.get? u.subnet.name) := by
  cases hs : store.get? u.subnet.name with
  | none =>
    cases ha : u.allowMissing <;>
      simp [update, run, Run.after, Run.effect, Request.effect, hs, ha]
  | some existing =>
    cases hm : FieldMask.apply u.updateMask existing u.subnet <;>
      simp [update, run, Run.after, Run.effect, Request.effect, hs, hm]

theorem effect_remove (d : DeleteRequest) (store : Store) :
    ((remove d).run (fun _ => none) store).effect d.name =
      (Request.delete d).effect d.name (store.get? d.name) := by
  cases hs : store.get? d.name <;> cases ha : d.allowMissing <;>
    simp [remove, run, Run.after, Run.effect, Request.effect, Store.contains, hs, ha]

end Program

/-- Where nothing fails, a request does what the table says. -/
theorem Request.run_eq_effect (h : r.plan fresh = .ok plan) (store : Store) :
    (plan.program.run (fun _ => none) store).effect plan.name =
      r.effect plan.name (store.get? plan.name) := by
  rcases plan_cases h with ⟨c, id, rfl, -, rfl⟩ | ⟨g, rfl, rfl⟩ | ⟨u, rfl, rfl⟩ | ⟨d, rfl, rfl⟩
  · exact Program.effect_create c _ store
  · exact Program.effect_fetch g store
  · exact Program.effect_update u store
  · exact Program.effect_remove d store

/-! ## Plans -/

/-- A request addresses a name that passes. -/
theorem Request.validate_name_plan (h : r.plan fresh = .ok plan) :
    Name.validate plan.name = .ok () := by
  cases r with
  | get | delete =>
    obtain ⟨⟨⟩, hv, h⟩ := exists_of_bind_eq_ok h
    obtain rfl := Except.ok.inj h
    exact hv
  | create | update =>
    -- the identifier or the mask comes before the name
    obtain ⟨_, -, h⟩ := exists_of_bind_eq_ok h
    obtain ⟨⟨⟩, hv, h⟩ := exists_of_bind_eq_ok h
    obtain rfl := Except.ok.inj h
    exact hv

theorem Request.plan_create_of_valid {c : CreateRequest} {id : String}
    (hid : c.identifier fresh = .ok id)
    (hv : Name.validate (Name.build Name.collection id) = .ok ()) :
    (Request.create c).plan fresh =
      .ok ⟨Name.build Name.collection id, true,
        .create (Name.build Name.collection id) (c.subnet.named (Name.build Name.collection id))⟩ := by
  rw [plan, bind_of_eq_ok hid]
  exact bind_of_eq_ok hv _

theorem Request.plan_get_of_valid {g : GetRequest} (fresh : String)
    (hv : Name.validate g.name = .ok ()) :
    (Request.get g).plan fresh = .ok ⟨g.name, false, .fetch g.name⟩ := by
  rw [plan]
  exact bind_of_eq_ok hv _

theorem Request.plan_update_of_valid {u : UpdateRequest} {fields : List SubnetField} (fresh : String)
    (hm : FieldMask.resolve u.updateMask = .ok fields)
    (hv : Name.validate u.subnet.name = .ok ()) :
    (Request.update u).plan fresh = .ok ⟨u.subnet.name, true, .update u⟩ := by
  rw [plan, hm]
  exact bind_of_eq_ok hv _

theorem Request.plan_delete_of_valid {d : DeleteRequest} (fresh : String)
    (hv : Name.validate d.name = .ok ()) :
    (Request.delete d).plan fresh = .ok ⟨d.name, true, .remove d⟩ := by
  rw [plan]
  exact bind_of_eq_ok hv _

/-- Only requests that take a generated identifier depend on it. -/
theorem Request.plan_of_not_needsIdentifier (h : r.needsIdentifier = false) (fresh fresh' : String) :
    r.plan fresh = r.plan fresh' := by
  cases r with
  | create c =>
    have hid : c.subnetId ≠ "" := of_decide_eq_false h
    simp only [plan, CreateRequest.identifier, if_neg hid]
  | get | update | delete => rfl

/-! ## A service -/

/-- No call to the store fails. -/
def Surroundings.Calm (around : Surroundings) : Prop := ∀ c, around.fails c = none

namespace Service

variable {s : Service} {around : Surroundings}

def nextIdentifier (s : Service) (around : Surroundings) : String :=
  around.identifier (s.issued + 1)

theorem plan_issued (s : Service) (around : Surroundings) (r : Request) :
    r.plan (around.identifier (if r.needsIdentifier then s.issued + 1 else s.issued)) =
      r.plan (s.nextIdentifier around) := by
  cases h : r.needsIdentifier with
  | true => rfl
  | false => exact Request.plan_of_not_needsIdentifier h _ _

/-- A request that does not pass its checks does nothing. -/
theorem handle_of_refused {e : SubnetError} (h : r.plan (s.nextIdentifier around) = .error e)
    (hn : r.needsIdentifier = false) : s.handle around r = ⟨.error e, [], s⟩ := by
  simp only [handle, plan_issued, h]
  rw [hn]
  rfl

/-- A request is refused, a call of it fails, or it does what the table says. Only then is anything
changed, and only under the name it addresses. -/
theorem handle_cases (s : Service) (around : Surroundings) (r : Request) :
    let handled := s.handle around r
    (∃ e, r.plan (s.nextIdentifier around) = .error e ∧ handled.result = .error e ∧
        handled.calls = [] ∧ handled.service.store = s.store) ∨
      (Failed around.fails handled.calls handled.result ∧ handled.service.store = s.store) ∨
      ∃ plan, r.plan (s.nextIdentifier around) = .ok plan ∧
        let effect := r.effect plan.name (s.store.get? plan.name)
        handled.result = effect.result ∧
          handled.service.store.get? = Function.update s.store.get? plan.name effect.stored := by
  cases hp : r.plan (s.nextIdentifier around) with
  | error e =>
    exact .inl ⟨e, rfl, by simp only [handle, plan_issued, hp, and_self]⟩
  | ok plan =>
    simp only [handle, plan_issued, hp]
    have hlast := (Request.plan_sound hp).writesLast
    rcases hlast.run_cases around.fails s.store with hfailed | hrun
    · exact .inr (.inl hfailed)
    · have heffect := Request.run_eq_effect hp s.store
      refine .inr (.inr ⟨plan, rfl, ?_, ?_⟩)
      · rw [hrun]
        exact congrArg Effect.result heffect
      · funext other
        by_cases ho : other = plan.name
        · subst ho
          rw [Function.update_self, hrun]
          exact congrArg Effect.stored heffect
        · rw [Function.update_of_ne ho]
          exact hlast.get?_run ho

/-- A request that passes its checks does what the table says if none of its calls fails. -/
theorem handle_undisturbed (hp : r.plan (s.nextIdentifier around) = .ok plan)
    (hf : ∀ c ∈ (s.handle around r).calls, around.fails c = none) :
    let effect := r.effect plan.name (s.store.get? plan.name)
    (s.handle around r).result = effect.result ∧
      (s.handle around r).service.store.get? plan.name = effect.stored := by
  rcases s.handle_cases around r with ⟨e, he, -⟩ | ⟨⟨c, hc, e, he, -⟩, -⟩ | ⟨plan', hp', hdone⟩
  · cases hp.symm.trans he
  · cases (hf c hc).symm.trans he
  · obtain rfl := Except.ok.inj (hp.symm.trans hp')
    exact ⟨hdone.1, by rw [hdone.2, Function.update_self]⟩

/-- A request that passes its checks does what the table says where no call fails. -/
theorem handle_calm (hcalm : around.Calm) (hp : r.plan (s.nextIdentifier around) = .ok plan) :
    let effect := r.effect plan.name (s.store.get? plan.name)
    (s.handle around r).result = effect.result ∧
      (s.handle around r).service.store.get? =
        Function.update s.store.get? plan.name effect.stored := by
  rcases s.handle_cases around r with ⟨e, he, -⟩ | ⟨⟨c, -, e, he, -⟩, -⟩ | ⟨plan', hp', hdone⟩
  · cases he.symm.trans hp
  · cases he.symm.trans (hcalm c)
  · obtain rfl := Except.ok.inj (hp.symm.trans hp')
    exact hdone

end Service
end SubnetRegistry
