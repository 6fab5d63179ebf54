import SubnetRegistry.Proofs.Service.WellFormed

/-!
# The history of a service

What requesters have been told decides what is stored and what the next one is told. A name is live
with the subnet that was last returned under it to a creation or an update, unless it has been deleted
since. Requests whose calls fail say nothing and change nothing.

## Main definitions

* `Service.handleAll` — requests one after the other, and what came of them.
* `History.told`, `History.live` — what one result says of a name, and what all of them say.
* `Service.Follows` — the store holds the live names, and requests are answered by them.

## Main statements

* `Service.get?_handle` — what a result says of a name is what is then stored under it.
* `Service.get?_handleAll` — so is the latest word of a history.
* `Service.history_decides` — a service that began with nothing follows its history.
-/
namespace SubnetRegistry

variable {name fresh : String} {r : Request} {plan : Plan} {v : Subnet} {stored : Option Subnet}

/-! ## Histories -/

namespace History

/-- What a result says of a name: that a subnet is stored under it, that nothing is, or nothing. -/
def told (name : String) : Request × Result → Option (Option Subnet)
  | (.create _, .ok (.subnet v)) | (.update _, .ok (.subnet v)) =>
    if v.name = name then some (some v) else none
  | (.delete d, .ok _) => if d.name = name then some none else none
  | _ => none

def latest (history : List (Request × Result)) (name : String) : Option (Option Subnet) :=
  (history.filterMap (told name)).getLast?

def live (history : List (Request × Result)) (name : String) : Option Subnet :=
  (latest history name).getD none

theorem told_error (name : String) (r : Request) (e : SubnetError) :
    told name (r, .error e) = none := by
  cases r <;> rfl

theorem getD_latest_cons (entry : Request × Result) (history : List (Request × Result))
    (name : String) (stored : Option Subnet) :
    (latest (entry :: history) name).getD stored =
      (latest history name).getD ((told name entry).getD stored) := by
  unfold latest
  cases ht : told name entry with
  | none => simp [ht]
  | some word =>
    cases hl : (history.filterMap (told name)).getLast? <;> simp [ht, hl, List.getLast?_cons]

/-- What the table's result says of a name is what the table stores under it. -/
theorem told_effect (hp : r.plan fresh = .ok plan) {view : String → Option Subnet}
    (hs : ∀ v, view plan.name = some v → v.name = plan.name) (name : String) :
    let effect := r.effect plan.name (view plan.name)
    (told name (r, effect.result)).getD (view name) =
      Function.update view plan.name effect.stored name := by
  intro effect
  have hnamed : ∀ v, effect.stored = some v → v.name = plan.name :=
    fun v => Request.name_of_stored hp hs
  rcases r.effect_cases plan.name (view plan.name) with ⟨e, h⟩ | ⟨v, h, hd, hg⟩ | ⟨d, rfl, h⟩ <;>
    simp only [effect, h] at hnamed ⊢
  · rw [told_error, Option.getD_none, Function.update_eq_self]
  · have hn := hnamed v rfl
    rw [Function.update_apply]
    cases r with
    | create | update => grind [told]
    | get g => grind [told]
    | delete d => exact absurd rfl (hd d)
  · have hn := Request.plan_delete hp
    rw [Function.update_apply]
    grind [told]

end History

/-- None of these calls failed. -/
def Handled.Undisturbed (handled : Handled) (around : Surroundings) : Prop :=
  ∀ c ∈ handled.calls, around.fails c = none

namespace Service

variable {s : Service} {around : Surroundings}

/-- Handles requests one after the other, each in its own surroundings. -/
def handleAll (s : Service) : List (Surroundings × Request) → Service × List (Request × Result)
  | [] => (s, [])
  | (around, r) :: rest =>
    let handled := s.handle around r
    let (last, history) := handled.service.handleAll rest
    (last, (r, handled.result) :: history)

/-- What a result says of a name is what is then stored under it. -/
theorem get?_handle (hs : s.store.WellFormed) (around : Surroundings) (r : Request) (name : String) :
    (s.handle around r).service.store.get? name =
      (History.told name (r, (s.handle around r).result)).getD (s.store.get? name) := by
  rcases s.handle_cases around r with ⟨e, -, he, -, hstore⟩ | ⟨⟨c, -, e, -, he⟩, hstore⟩ |
    ⟨plan, hp, hr, hview⟩
  · rw [he, hstore, History.told_error, Option.getD_none]
  · rw [he, hstore, History.told_error, Option.getD_none]
  · rw [hr, hview]
    exact (History.told_effect hp (hs.named plan.name) name).symm

/-- The latest word of a history about a name is what is then stored under it. -/
theorem get?_handleAll (hs : s.store.WellFormed) (asked : List (Surroundings × Request))
    (name : String) :
    (s.handleAll asked).1.store.get? name =
      (History.latest (s.handleAll asked).2 name).getD (s.store.get? name) := by
  induction asked generalizing s with
  | nil => rfl
  | cons a asked ih =>
    simp only [handleAll]
    rw [ih (handle_wellFormed hs a.1 a.2), History.getD_latest_cons, ← get?_handle hs]

/-! ## What is said of the next request -/

/-- The store holds the live names with their values, and a request that passes its checks, and none of
whose calls fails, is answered by them. -/
structure Follows (s : Service) (live : String → Option Subnet) : Prop where
  /-- The store holds the live names with their values and nothing else. -/
  holds : ∀ name, s.store.get? name = live name
  /-- A fetch returns the live value. -/
  fetch : ∀ around g, Name.validate g.name = .ok () →
    let handled := s.handle around (.get g)
    handled.Undisturbed around →
      handled.result = match live g.name with
        | some v => .ok (.subnet v)
        | none => .error (.notFound g.name)
  /-- A creation returns the live value as it is, and stores and returns its body where there is
  none. -/
  create : ∀ around c id, c.identifier (s.nextIdentifier around) = .ok id →
    let name := Name.build Name.collection id
    Name.validate name = .ok () →
    let handled := s.handle around (.create c)
    handled.Undisturbed around →
      let body := (live name).getD (c.subnet.named name)
      handled.result = .ok (.subnet body) ∧ handled.service.store.get? name = some body
  /-- An update merges its payload into the live value. Where there is none it is refused, or stores
  its payload whole if that is allowed. -/
  update : ∀ around u fields, FieldMask.resolve u.updateMask = .ok fields →
    let name := u.subnet.name
    Name.validate name = .ok () →
    let handled := s.handle around (.update u)
    handled.Undisturbed around →
      match live name with
      | some v =>
        let merged := FieldMask.copyFields v u.subnet fields
        handled.result = .ok (.subnet merged) ∧ handled.service.store.get? name = some merged
      | none =>
        if u.allowMissing then
          handled.result = .ok (.subnet u.subnet) ∧
            handled.service.store.get? name = some u.subnet
        else handled.result = .error (.notFound name)
  /-- A deletion succeeds where the name is live or need not be. Either way nothing is stored there. -/
  delete : ∀ around d, Name.validate d.name = .ok () →
    let handled := s.handle around (.delete d)
    handled.Undisturbed around →
      (handled.result = if (live d.name).isSome || d.allowMissing then .ok .empty
        else .error (.notFound d.name)) ∧ handled.service.store.get? d.name = none

/-- A store that holds the live names is enough. -/
theorem follows_of_holds {live : String → Option Subnet}
    (h : ∀ name, s.store.get? name = live name) : s.Follows live where
  holds := h
  fetch := by
    intro around g hv handled hu
    obtain ⟨hresult, -⟩ := handle_undisturbed (Request.plan_get_of_valid _ hv) hu
    rw [hresult, h g.name]
    cases live g.name <;> rfl
  create := by
    intro around c id hid name hv handled hu
    obtain ⟨hresult, hget⟩ := handle_undisturbed (Request.plan_create_of_valid hid hv) hu
    rw [hresult, hget, h name]
    cases live name <;> exact ⟨rfl, rfl⟩
  update := by
    intro around u fields hm name hv handled hu
    obtain ⟨hresult, hget⟩ := handle_undisturbed (Request.plan_update_of_valid _ hm hv) hu
    rw [hresult, hget, h name]
    cases live name with
    | none => cases ha : u.allowMissing <;> simp [Request.effect, ha, name]
    | some v =>
      have happly : FieldMask.apply u.updateMask v u.subnet =
          .ok (FieldMask.copyFields v u.subnet fields) :=
        FieldMask.apply_eq_ok_iff.2 ⟨fields, hm, rfl⟩
      simp [Request.effect, happly]
  delete := by
    intro around d hv handled hu
    obtain ⟨hresult, hget⟩ := handle_undisturbed (Request.plan_delete_of_valid _ hv) hu
    rw [hresult, hget, h d.name]
    cases live d.name with
    | none => cases ha : d.allowMissing <;> simp [Request.effect, ha]
    | some v => exact ⟨rfl, rfl⟩

/-- A service that began with nothing follows what its requesters have been told. -/
theorem history_decides (issued : Nat) (asked : List (Surroundings × Request)) :
    let (s, history) := Service.handleAll ⟨.empty, issued⟩ asked
    s.Follows (History.live history) :=
  follows_of_holds fun name => get?_handleAll Store.wellFormed_empty asked name

/-- A failed update and a deletion of another name are not noticed. -/
theorem history_decides_failedUpdate :
    let calm : Surroundings := ⟨Identifier.generate 0, fun _ => none⟩
    let failing : Surroundings :=
      ⟨Identifier.generate 0, fun c => if c.kind = .put then some ⟨.serialization, "full"⟩ else none⟩
    let kept : Subnet := { name := "subnets/a", status := some {} }
    let asked : List (Surroundings × Request) :=
      [(calm, .create ⟨"", "a", kept.named "b"⟩), (failing, .update ⟨{ name := "subnets/a" }, none, true⟩),
        (calm, .delete ⟨"subnets/b", true⟩)]
    let served := Service.handleAll ⟨.empty, 0⟩ asked
    History.live served.2 "subnets/a" = some kept ∧
      (served.1.handle calm (.get ⟨"subnets/a"⟩)).result = .ok (.subnet kept) := by
  intro calm failing kept asked served
  have hlive : History.live served.2 "subnets/a" = some kept := by decide +kernel
  have hname : Name.validate "subnets/a" = .ok () := Name.validate_eq_ok_iff.2 (by decide +kernel)
  have hfetch := (history_decides 0 asked).fetch calm ⟨"subnets/a"⟩ hname fun _ _ => rfl
  refine ⟨hlive, hfetch.trans ?_⟩
  show (match History.live served.2 "subnets/a" with
    | some v => .ok (.subnet v)
    | none => .error (.notFound "subnets/a") : Result) = _
  rw [hlive]

end Service
end SubnetRegistry
