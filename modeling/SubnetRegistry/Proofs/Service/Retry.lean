import SubnetRegistry.Proofs.Service.Failure
import SubnetRegistry.Proofs.Service.Updates

/-!
# Retrying a request

A client that has not heard may ask again. A successful request leaves the service in a state in which
the same request changes nothing: an update finds what it stored, a creation finds a subnet under its
name, and a deletion finds none. Only an update that stored an absent name may change the subnet once
more, since it is then merged into itself: no leaf changes, but a part may come to be set.

## Main definitions

* `Service.Settled` — a request that leaves the service as it is.

## Main statements

* `Program.WritesLast.store_run_eq_self` — a run that leaves the same under its name leaves the same
  store.
* `Service.settled_of_effect` — so a request is settled if the table changes nothing.
* `Service.Settled.handleAll_replicate` — a settled request may be repeated any number of times.
* `Service.settled_update_of_present`, `Service.settled_update_of_absent`, `Service.settled_create`,
  `Service.settled_delete` — when the requests of each kind are settled.
* `Service.retried` — what comes of a successful request that is repeated.
-/
namespace SubnetRegistry

open FieldMask

variable {fails : Call → Option InfrastructureError} {store : Store} {name : String}
  {around : Surroundings} {s : Service} {r : Request} {result : Result} {outcome : Outcome}
  {u : UpdateRequest}

/-! ## Stores that are left alone -/

/-- A run that leaves the same under its name leaves the same store. -/
theorem Program.WritesLast.store_run_eq_self {p : Program} (h : p.WritesLast name)
    (hs : (p.run fails store).store.get? name = store.get? name) :
    (p.run fails store).store = store := by
  induction h with
  | answer result => rfl
  | @get next h ih =>
    simp only [run] at hs ⊢
    split
    · rfl
    · next hf =>
      rw [hf] at hs
      exact ih _ hs
  | put subnet result =>
    simp only [run] at hs ⊢
    split
    · rfl
    · next hf =>
      rw [hf] at hs
      have hstored : store.get? name = some subnet := by simpa [run, Run.after] using hs.symm
      exact Store.put_eq_self hstored
  | @delete next h =>
    obtain ⟨result, hr⟩ := h (store.contains name)
    simp only [run, hr] at hs ⊢
    split
    · rfl
    · next hf =>
      rw [hf] at hs
      have habsent : store.get? name = none := by simpa [run, Run.after] using hs.symm
      exact Store.delete_eq_self (by rw [Store.contains, habsent]; rfl)

/-- An update that is not refused has a mask that passes. -/
theorem Request.exists_resolve_of_plan {plan : Plan} {fresh : String}
    (hp : (Request.update u).plan fresh = .ok plan) : ∃ fields, resolve u.updateMask = .ok fields := by
  obtain ⟨fields, hm, -⟩ := exists_of_bind_eq_ok hp
  exact ⟨fields, eq_ok_of_mapError_eq_ok hm⟩

namespace Service

/-! ## Settled requests -/

/-- Handling the request gives the result and leaves the service as it is. -/
structure Settled (s : Service) (around : Surroundings) (r : Request) (result : Result) : Prop where
  result_eq : (s.handle around r).result = result
  service_eq : (s.handle around r).service = s

/-- A settled request may be repeated any number of times. -/
theorem Settled.handleAll_replicate (h : s.Settled around r result) (n : Nat) :
    s.handleAll (List.replicate n (around, r)) = (s, List.replicate n (r, result)) := by
  induction n with
  | zero => rfl
  | succ n ih =>
    rw [List.replicate_succ, handleAll, h.service_eq, ih, h.result_eq]
    rfl

/-- A request with an identifier of its own is settled if the table changes nothing. -/
theorem settled_of_effect {plan : Plan} {fresh : String} (hcalm : around.Calm)
    (hown : r.needsIdentifier = false) (hp : r.plan fresh = .ok plan)
    (h : r.effect plan.name (s.store.get? plan.name) = ⟨result, s.store.get? plan.name⟩) :
    s.Settled around r result := by
  have hp' : r.plan (s.nextIdentifier around) = .ok plan :=
    (Request.plan_of_not_needsIdentifier hown _ _).trans hp
  obtain ⟨hresult, hview⟩ := handle_calm hcalm hp'
  rw [h] at hresult hview
  have hstore : (s.handle around r).service.store.get? plan.name = s.store.get? plan.name := by
    rw [hview, Function.update_self]
  refine ⟨hresult, ?_⟩
  simp only [handle, plan_issued, hp'] at hstore ⊢
  rw [(Request.plan_sound hp).writesLast.store_run_eq_self hstore, hown]
  rfl

/-- A request that succeeds where no call fails did what the table says. -/
theorem exists_effect_of_ok (hcalm : around.Calm)
    (h : (s.handle around r).result = .ok outcome) :
    ∃ plan, r.plan (s.nextIdentifier around) = .ok plan ∧
      r.effect plan.name (s.store.get? plan.name) =
        ⟨.ok outcome, (s.handle around r).service.store.get? plan.name⟩ := by
  rcases s.handle_cases around r with ⟨e, -, he, -⟩ | ⟨⟨c, -, e, he, -⟩, -⟩ | ⟨plan, hp, hr, hview⟩
  · cases he.symm.trans h
  · cases he.symm.trans (hcalm c)
  · refine ⟨plan, hp, ?_⟩
    rw [hview, Function.update_self, ← h, hr]

/-! ## Requests that are repeated -/

/-- After an update of a stored subnet the payload has been merged, and merging it again makes no
difference. -/
theorem settled_update_of_present (hcalm : around.Calm)
    (hs : s.store.contains u.subnet.name = true)
    (h : (s.handle around (.update u)).result = .ok outcome) :
    (s.handle around (.update u)).service.Settled around (.update u) (.ok outcome) := by
  obtain ⟨plan, hp, heffect⟩ := exists_effect_of_ok hcalm h
  obtain ⟨fields, hm⟩ := Request.exists_resolve_of_plan hp
  obtain ⟨stored, hs⟩ := Option.isSome_iff_exists.1 hs
  obtain rfl := Request.plan_update hp
  simp only [Request.effect, hs, apply_of_resolve hm, Effect.mk.injEq, Except.ok.injEq] at heffect
  obtain ⟨hresult, hstored⟩ := heffect
  refine settled_of_effect hcalm rfl hp ?_
  simp only [← hstored, Request.effect, apply_of_resolve hm, copyFields_copyFields hm, hresult]

/-- An update of an absent name stores the payload if it may, and the next one merges it into itself. -/
theorem handle_update_of_absent (hcalm : around.Calm)
    (hs : s.store.contains u.subnet.name = false)
    (h : (s.handle around (.update u)).result = .ok outcome) :
    ∃ fields, resolve u.updateMask = .ok fields ∧ outcome = .subnet u.subnet ∧
      (s.handle around (.update u)).service.store.get? u.subnet.name = some u.subnet ∧
      ((s.handle around (.update u)).service.handle around (.update u)).result =
        .ok (.subnet (copyFields u.subnet u.subnet fields)) := by
  obtain ⟨plan, hp, heffect⟩ := exists_effect_of_ok hcalm h
  obtain ⟨fields, hm⟩ := Request.exists_resolve_of_plan hp
  have hv := Request.validate_name_plan hp
  obtain rfl := Request.plan_update hp
  have hs : s.store.get? u.subnet.name = none := by simpa [Store.contains] using hs
  have hstored : outcome = .subnet u.subnet ∧
      (s.handle around (.update u)).service.store.get? u.subnet.name = some u.subnet := by
    simp only [Request.effect, hs] at heffect
    split at heffect
    · simpa [eq_comm] using heffect
    · simp at heffect
  exact ⟨fields, hm, hstored.1, hstored.2, (handle_update hcalm hm hv hstored.2).1⟩

/-- A creation under an identifier leaves a subnet under its name, which the next one finds. -/
theorem settled_create {c c' : CreateRequest} (hcalm : around.Calm) (hid : c.subnetId ≠ "")
    (hid' : c'.subnetId = c.subnetId) (h : (s.handle around (.create c)).result = .ok outcome) :
    (s.handle around (.create c)).service.Settled around (.create c') (.ok outcome) := by
  obtain ⟨plan, hp, heffect⟩ := exists_effect_of_ok hcalm h
  have hv := Request.validate_name_plan hp
  obtain ⟨_, id, ⟨⟩, hc, rfl⟩ | ⟨_, ⟨⟩, -⟩ | ⟨_, ⟨⟩, -⟩ | ⟨_, ⟨⟩, -⟩ := Request.plan_cases hp
  have hc' : c'.identifier (s.nextIdentifier around) = .ok id := by
    rw [← hc, CreateRequest.identifier, CreateRequest.identifier, hid']
  have hown : (Request.create c').needsIdentifier = false := decide_eq_false (hid' ▸ hid)
  refine settled_of_effect hcalm hown (Request.plan_create_of_valid hc' hv) ?_
  cases hs : s.store.get? (Name.build Name.collection id) <;>
    · simp only [Request.effect, hs, Effect.mk.injEq, Except.ok.injEq] at heffect
      simp only [← heffect.2, Request.effect, heffect.1]

/-- A deletion leaves nothing under its name, which the next one finds if it has to. -/
theorem settled_delete {d : DeleteRequest} (hcalm : around.Calm)
    (h : (s.handle around (.delete d)).result = .ok outcome) :
    (s.handle around (.delete d)).service.Settled around (.delete d)
      (if d.allowMissing then .ok .empty else .error (.notFound d.name)) := by
  obtain ⟨plan, hp, heffect⟩ := exists_effect_of_ok hcalm h
  obtain rfl := Request.plan_delete hp
  have hnone : (s.handle around (.delete d)).service.store.get? d.name = none := by
    rcases (Request.delete d).effect_cases d.name (s.store.get? d.name) with
      ⟨e, he⟩ | ⟨v, -, hd, -⟩ | ⟨-, -, he⟩
    · cases heffect.symm.trans he
    · exact absurd rfl (hd d)
    · exact congrArg Effect.stored (heffect.symm.trans he)
  refine settled_of_effect hcalm rfl hp ?_
  simp only [hnone, Request.effect]
  split <;> rfl

/-- An update that stored an absent name may set parts of it when it is repeated, but no leaf of it
changes. A third one finds what the second one stored. -/
theorem settled_update_of_absent (hcalm : around.Calm) (hs : s.store.contains u.subnet.name = false)
    (h : (s.handle around (.update u)).result = .ok outcome) :
    let second := (s.handle around (.update u)).service.handle around (.update u)
    ∃ v w, outcome = .subnet v ∧ second.result = .ok (.subnet w) ∧ w.name = v.name ∧
      (∀ leaf : SubnetLeaf, leaf.read w = leaf.read v) ∧ (replacesAll u.updateMask = true → w = v) ∧
      second.service.Settled around (.update u) (.ok (.subnet w)) := by
  intro second
  obtain ⟨fields, hm, rfl, hstored, hsecond⟩ := handle_update_of_absent hcalm hs h
  refine ⟨u.subnet, _, rfl, hsecond, name_copyFields _ _ _, read_copyFields_self _ _, fun hall => ?_,
    settled_update_of_present hcalm (by rw [Store.contains, hstored]; rfl) hsecond⟩
  rw [(eq_nil_iff_of_resolve hm).2 hall]
  rfl

/-- What comes of a successful request that is repeated where no call fails. An update of a stored
subnet, a creation under an identifier and a deletion leave a service on which another one changes
nothing: the update and the creation give the same subnet again, whatever else the creation says, and
the deletion succeeds if it may find nothing. An update that stored an absent name gives a subnet that
reads the same, and is the same if everything is replaced; from then on nothing changes. -/
theorem retried (hcalm : around.Calm) (s : Service) :
    (∀ u outcome, s.store.contains u.subnet.name = true →
        (s.handle around (.update u)).result = .ok outcome →
        (s.handle around (.update u)).service.Settled around (.update u) (.ok outcome)) ∧
      (∀ u outcome, s.store.contains u.subnet.name = false →
        (s.handle around (.update u)).result = .ok outcome →
        let second := (s.handle around (.update u)).service.handle around (.update u)
        ∃ v w, outcome = .subnet v ∧ second.result = .ok (.subnet w) ∧ w.name = v.name ∧
          (∀ leaf : SubnetLeaf, leaf.read w = leaf.read v) ∧
          (replacesAll u.updateMask = true → w = v) ∧
          ∀ n, second.service.handleAll (List.replicate n (around, .update u)) =
            (second.service, List.replicate n (.update u, .ok (.subnet w)))) ∧
      (∀ c c' outcome, c.subnetId ≠ "" → c'.subnetId = c.subnetId →
        (s.handle around (.create c)).result = .ok outcome →
        (s.handle around (.create c)).service.Settled around (.create c') (.ok outcome)) ∧
      ∀ d outcome, (s.handle around (.delete d)).result = .ok outcome →
        (s.handle around (.delete d)).service.Settled around (.delete d)
          (if d.allowMissing then .ok .empty else .error (.notFound d.name)) := by
  refine ⟨fun u outcome => settled_update_of_present hcalm, fun u outcome hs h => ?_,
    fun c c' outcome => settled_create hcalm, fun d outcome => settled_delete hcalm⟩
  obtain ⟨v, w, hv, hw, hname, hread, hall, hsettled⟩ := settled_update_of_absent hcalm hs h
  exact ⟨v, w, hv, hw, hname, hread, hall, hsettled.handleAll_replicate⟩

/-- An update that stored a subnet without a specification makes one when it is repeated; the other
requests are settled at once. -/
theorem retried_emerging :
    let around : Surroundings := ⟨Identifier.generate 0, fun _ => none⟩
    let s : Service := ⟨Store.ofSeed [("subnets/a", { name := "subnets/a" })], 0⟩
    let u : UpdateRequest := ⟨{ name := "subnets/a" }, some ⟨["status.hw_index"]⟩, false⟩
    let missing : UpdateRequest := ⟨{ name := "subnets/b" }, some ⟨["spec.vpc_name_ref"]⟩, true⟩
    let c : CreateRequest := ⟨"", "c", { status := some ⟨1, 2⟩ }⟩
    let first := s.handle around (.update missing)
    let second := first.service.handle around (.update missing)
    let emerged : Subnet := { name := "subnets/b", spec := some {} }
    (s.handle around (.update u)).service.Settled around (.update u)
        (.ok (.subnet { name := "subnets/a", status := some {} })) ∧
      first.result = .ok (.subnet { name := "subnets/b" }) ∧
      (∀ n, second.service.handleAll (List.replicate n (around, .update missing)) =
        (second.service, List.replicate n (.update missing, .ok (.subnet emerged)))) ∧
      (s.handle around (.create c)).service.Settled around (.create ⟨"", "c", {}⟩)
        (.ok (.subnet { name := "subnets/c", status := some ⟨1, 2⟩ })) ∧
      (s.handle around (.delete ⟨"subnets/a", false⟩)).service.Settled around
        (.delete ⟨"subnets/a", false⟩) (.error (.notFound "subnets/a")) := by
  intro around s u missing c first second emerged
  have hcalm : around.Calm := fun _ => rfl
  obtain ⟨hpresent, habsent, hcreate, hdelete⟩ := retried hcalm s
  have hfirst : first.result = .ok (.subnet { name := "subnets/b" }) := by decide +kernel
  have hsecond : second.result = .ok (.subnet emerged) := by decide +kernel
  obtain ⟨v, w, -, hw, -, -, -, hrest⟩ := habsent missing _ (by decide +kernel) hfirst
  obtain rfl : w = emerged := Outcome.subnet.inj (Except.ok.inj (hw.symm.trans hsecond))
  exact ⟨hpresent u _ (by decide +kernel) (by decide +kernel), hfirst, hrest,
    hcreate c _ _ (by decide) rfl (by decide +kernel), hdelete _ .empty (by decide +kernel)⟩

end Service
end SubnetRegistry
