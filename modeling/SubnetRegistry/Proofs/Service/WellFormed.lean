import SubnetRegistry.Proofs.Name
import SubnetRegistry.Proofs.Service.Effect
import SubnetRegistry.Proofs.Service.Inputs
import SubnetRegistry.Proofs.Store

/-!
# Subnets under their own names

In a well-formed store every name passes and every subnet is stored under its own name. Requests keep
stores well formed, whatever names their payloads carry, and what they return is what is then stored.

## Main definitions

* `Store.WellFormed` — every name passes, and every subnet has the name it is stored under.

## Main statements

* `Request.stored_of_result`, `Request.name_of_stored` — the subnet that the table returns is the one
  it stores, and has its name.
* `Service.handle_wellFormed`, `Service.take_wellFormed` — a step keeps the store well formed.
* `Service.names_kept` — so do any inputs, and what is returned is stored under its own name.
-/
namespace SubnetRegistry

variable {name fresh : String} {r : Request} {plan : Plan} {v : Subnet} {stored : Option Subnet}

/-- Every name passes, and every subnet has the name it is stored under. -/
structure Store.WellFormed (s : Store) : Prop where
  valid : ∀ name v, s.get? name = some v → Name.validate name = .ok ()
  named : ∀ name v, s.get? name = some v → v.name = name

theorem Store.wellFormed_empty : Store.empty.WellFormed := ⟨nofun, nofun⟩

/-- A store that is changed under one name stays well formed. -/
theorem Store.WellFormed.update {s after : Store} (h : s.WellFormed)
    (hview : after.get? = Function.update s.get? name stored) (hvalid : Name.validate name = .ok ())
    (hnamed : ∀ v, stored = some v → v.name = name) : after.WellFormed := by
  have hcases : ∀ other v, after.get? other = some v →
      other = name ∧ stored = some v ∨ s.get? other = some v := by
    intro other v hv
    rw [hview, Function.update_apply] at hv
    split at hv
    · next ho => exact .inl ⟨ho, hv⟩
    · exact .inr hv
  constructor
  · intro other v hv
    rcases hcases other v hv with ⟨rfl, -⟩ | hold
    · exact hvalid
    · exact h.valid other v hold
  · intro other v hv
    rcases hcases other v hv with ⟨rfl, hnew⟩ | hold
    · exact hnamed v hnew
    · exact h.named other v hold

theorem Store.WellFormed.put {s : Store} (h : s.WellFormed)
    (hvalid : Name.validate v.name = .ok ()) : (s.put v.name v).WellFormed :=
  h.update (s.view_put v.name v) hvalid fun _ hv => Option.some.inj hv ▸ rfl

/-! ## What the table stores -/

/-- The subnet that is returned is stored. -/
theorem Request.stored_of_result (h : (r.effect name stored).result = .ok (.subnet v)) :
    (r.effect name stored).stored = some v := by
  rcases r.effect_cases name stored with ⟨e, heq⟩ | ⟨w, heq, -⟩ | ⟨d, -, heq⟩
  · rw [heq] at h
    cases h
  · rw [heq] at h ⊢
    cases h
    rfl
  · rw [heq] at h
    cases h

/-- The subnet that is stored was there, is the payload, or has been updated from it. -/
theorem Request.stored_cases (h : (r.effect name stored).stored = some v) :
    stored = some v ∨ (∃ c, r = .create c ∧ v = c.subnet.named name) ∨
      ∃ u, r = .update u ∧ (v = u.subnet ∨
        ∃ existing fields, stored = some existing ∧
          v = FieldMask.copyFields existing u.subnet fields) := by
  unfold effect at h
  grind [FieldMask.apply_eq_ok_iff]

/-- The subnet that is stored has the name it is stored under. -/
theorem Request.name_of_stored (hp : r.plan fresh = .ok plan)
    (hs : ∀ v, stored = some v → v.name = plan.name)
    (h : (r.effect plan.name stored).stored = some v) : v.name = plan.name := by
  rcases stored_cases h with hold | ⟨c, rfl, rfl⟩ | ⟨u, rfl, hu⟩
  · exact hs v hold
  · rfl
  · rcases hu with rfl | ⟨existing, fields, hold, rfl⟩
    · rw [plan_update hp]
    · rw [FieldMask.name_copyFields]
      exact hs existing hold

/-- A creation addresses the name of a label. -/
theorem Request.exists_label_of_create (hp : r.plan fresh = .ok plan) (hr : r.operation = .create)
    (hf : Identifier.isUuidV7 fresh) :
    ∃ id, plan.name = Name.build Name.collection id ∧ Name.isLabel id.toList := by
  have hvalid := validate_name_plan hp
  rcases plan_cases hp with ⟨c, id, rfl, hid, rfl⟩ | ⟨g, rfl, -⟩ | ⟨u, rfl, -⟩ | ⟨d, rfl, -⟩
  · exact ⟨id, rfl, CreateRequest.isLabel_identifier hid hf hvalid⟩
  · cases hr
  · cases hr
  · cases hr

namespace Service

variable {s : Service} {around : Surroundings}

/-! ## Requests -/

theorem handle_wellFormed (hs : s.store.WellFormed) (around : Surroundings) (r : Request) :
    (s.handle around r).service.store.WellFormed := by
  rcases s.handle_cases around r with ⟨_, -, -, -, hstore⟩ | ⟨-, hstore⟩ | ⟨plan, hp, -, hview⟩
  · exact hstore ▸ hs
  · exact hstore ▸ hs
  · refine hs.update hview (Request.validate_name_plan hp) fun v hv => ?_
    exact Request.name_of_stored hp (hs.named plan.name) hv

/-- The subnet that is returned is stored under the name of the request, which it has. -/
theorem get?_of_handle (hs : s.store.WellFormed)
    (h : (s.handle around r).result = .ok (.subnet v)) :
    ∃ plan, r.plan (s.nextIdentifier around) = .ok plan ∧ v.name = plan.name ∧
      (s.handle around r).service.store.get? plan.name = some v := by
  rcases s.handle_cases around r with ⟨e, -, he, -⟩ | ⟨⟨c, -, e, -, he⟩, -⟩ | ⟨plan, hp, hr, hview⟩
  · cases h.symm.trans he
  · cases h.symm.trans he
  · have hstored := Request.stored_of_result (hr.symm.trans h)
    refine ⟨plan, hp, Request.name_of_stored hp (hs.named plan.name) hstored, ?_⟩
    rw [hview, Function.update_self, hstored]

/-! ## Inputs -/

theorem take_wellFormed (hs : s.store.WellFormed) (around : Surroundings) (input : Input) :
    (s.take around input).service.store.WellFormed := by
  rcases s.take_cases around input with ⟨-, hsame⟩ | ⟨r, -, -, hservice⟩
  · rwa [hsame]
  · exact hservice ▸ handle_wellFormed hs around r

theorem takeAll_wellFormed (hs : s.store.WellFormed) (inputs : List (Surroundings × Input)) :
    (s.takeAll inputs).store.WellFormed := by
  induction inputs generalizing s with
  | nil => exact hs
  | cons i inputs ih => exact ih (take_wellFormed hs i.1 i.2)

/-- Whatever is taken, the store stays well formed. What is then returned is stored under its own name,
and where it is returned to a creation its name is that of a label. -/
theorem names_kept (s : Service) (hs : s.store.WellFormed) (inputs : List (Surroundings × Input))
    (around : Surroundings) (input : Input) :
    let now := s.takeAll inputs
    let taken := now.take around input
    now.store.WellFormed ∧ taken.service.store.WellFormed ∧
      ∀ v, taken.returned = some v →
        taken.service.store.get? v.name = some v ∧
        (input.operation? = some .create → (∀ n, Identifier.isUuidV7 (around.identifier n)) →
          ∃ id, v.name = Name.build Name.collection id ∧ Name.isLabel id.toList) := by
  intro now taken
  have hnow := takeAll_wellFormed hs inputs
  refine ⟨hnow, take_wellFormed hnow around input, fun v hv => ?_⟩
  rcases now.take_cases around input with ⟨hnone, -⟩ | ⟨r, hop, hreturned, hservice⟩
  · cases hv.symm.trans hnone
  · have hresult := Result.eq_ok_of_subnet? (hreturned.symm.trans hv)
    obtain ⟨plan, hp, hname, hget⟩ := get?_of_handle hnow hresult
    rw [hname]
    refine ⟨?_, fun hcreate huuid => ?_⟩
    · exact (congrArg (fun s => s.store.get? plan.name) hservice).trans hget
    · exact Request.exists_label_of_create hp (Option.some.inj (hop.symm.trans hcreate)) (huuid _)

/-- A payload of another name is stored under the generated one. -/
theorem names_kept_generated :
    let around : Surroundings := ⟨Identifier.generate 1700000000000, fun _ => none⟩
    let stray : Subnet := { name := "elsewhere/a" }
    let kept : Subnet := { name := "subnets/a" }
    let start : Service := ⟨Store.empty.put kept.name kept, 0⟩
    let inputs : List (Surroundings × Input) :=
      [(around, .message "opi" "opi.subnet.delete" []), (around, .request (.update ⟨stray, none, true⟩))]
    let taken := (start.takeAll inputs).take around (.request (.create ⟨"", "", stray⟩))
    start.store.WellFormed ∧ (∀ n, Identifier.isUuidV7 (around.identifier n)) ∧
      ∃ v, taken.returned = some v ∧ taken.service.store.get? v.name = some v ∧
        ∃ id, v.name = Name.build Name.collection id ∧ Name.isLabel id.toList := by
  intro around stray kept start inputs taken
  have hname : Name.validate kept.name = .ok () := Name.validate_eq_ok_iff.2 (by decide +kernel)
  have hstart : start.store.WellFormed := Store.wellFormed_empty.put hname
  have huuid : ∀ n, Identifier.isUuidV7 (around.identifier n) :=
    Identifier.isUuidV7_generate _
  obtain ⟨v, hv⟩ : ∃ v, taken.returned = some v := Option.isSome_iff_exists.1 (by decide +kernel)
  have hkept := (names_kept start hstart inputs around _).2.2 v hv
  exact ⟨hstart, huuid, v, hv, hkept.1, hkept.2 rfl huuid⟩

end Service
end SubnetRegistry
