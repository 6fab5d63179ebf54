import SubnetRegistry.Proofs.Mask.Successive
import SubnetRegistry.Proofs.Service.History

/-!
# Two updates of one subnet

The laws of successive updates hold at the service: two updates of a stored subnet whose masks have no
leaf in common leave the same behind in either order, and what they leave reads as both of them asked.

## Main definitions

* `UpdateRequest.KeptBy` — what is stored reads as an update asked.

## Main statements

* `Service.handle_update` — what an update of a stored subnet does.
* `Service.successive_updates` — an update overrides an earlier one by the same mask, and updates
  without a common leaf can be made in either order.
-/
namespace SubnetRegistry

open FieldMask

variable {around : Surroundings} {s : Service} {u u₁ u₂ : UpdateRequest}
  {fields fields₁ fields₂ : List SubnetField} {stored : Subnet}

/-- What is stored reads as the payload at the leaves that the mask covers. -/
def UpdateRequest.KeptBy (u : UpdateRequest) (s : Service) : Prop :=
  ∃ stored, s.store.get? u.subnet.name = some stored ∧
    ∀ leaf : SubnetLeaf, Covers u.updateMask leaf → leaf.read stored = leaf.read u.subnet

namespace Service

/-- An update of a stored subnet returns and stores the masked update of it. -/
theorem handle_update (hcalm : around.Calm) (hm : resolve u.updateMask = .ok fields)
    (hv : Name.validate u.subnet.name = .ok ()) (hs : s.store.get? u.subnet.name = some stored) :
    let updated := copyFields stored u.subnet fields
    (s.handle around (.update u)).result = .ok (.subnet updated) ∧
      (s.handle around (.update u)).service.store.get? =
        Function.update s.store.get? u.subnet.name (some updated) := by
  obtain ⟨hresult, hview⟩ := handle_calm hcalm (Request.plan_update_of_valid _ hm hv)
  rw [hresult, hview, hs]
  simp [Request.effect, apply_of_resolve hm]

/-- An update under a name that does not pass changes nothing. -/
theorem handle_update_of_invalid (hv : Name.validate u.subnet.name ≠ .ok ()) (s : Service)
    (around : Surroundings) :
    (s.handle around (.update u)).service.store = s.store := by
  rcases s.handle_cases around (.update u) with ⟨e, -, -, -, h⟩ | ⟨-, h⟩ | ⟨plan, hp, -⟩
  · exact h
  · exact h
  · have hname := Request.validate_name_plan hp
    rw [Request.plan_update hp] at hname
    exact absurd hname hv

/-- Two updates of a stored subnet both succeed, the second one on what the first one left. -/
theorem handleAll_updates (hcalm : around.Calm) (hname : u₂.subnet.name = u₁.subnet.name)
    (hv : Name.validate u₁.subnet.name = .ok ()) (h₁ : resolve u₁.updateMask = .ok fields₁)
    (h₂ : resolve u₂.updateMask = .ok fields₂) (hs : s.store.get? u₁.subnet.name = some stored) :
    let served := s.handleAll [(around, .update u₁), (around, .update u₂)]
    let first := copyFields stored u₁.subnet fields₁
    let second := copyFields first u₂.subnet fields₂
    served.2 = [(.update u₁, .ok (.subnet first)), (.update u₂, .ok (.subnet second))] ∧
      served.1.store.get? = Function.update s.store.get? u₁.subnet.name (some second) := by
  obtain ⟨hresult, hview⟩ := handle_update hcalm h₁ hv hs
  have hs' : (s.handle around (.update u₁)).service.store.get? u₂.subnet.name =
      some (copyFields stored u₁.subnet fields₁) := by
    rw [hview, hname, Function.update_self]
  obtain ⟨hresult', hview'⟩ := handle_update hcalm h₂ (hname ▸ hv) hs'
  simp only [handleAll]
  rw [hresult, hresult', hview', hview, hname, Function.update_idem]
  exact ⟨rfl, rfl⟩

/-- Two updates of a stored subnet without a common leaf leave the same behind in either order. Under a
name that does not pass they leave everything as it was. -/
theorem handleAll_updates_comm (hcalm : around.Calm) (hname : u₂.subnet.name = u₁.subnet.name)
    (h₁ : resolve u₁.updateMask = .ok fields₁) (h₂ : resolve u₂.updateMask = .ok fields₂)
    (hdisjoint : ∀ leaf, Covers u₁.updateMask leaf → ¬ Covers u₂.updateMask leaf)
    (hs : s.store.get? u₁.subnet.name = some stored) :
    (s.handleAll [(around, .update u₁), (around, .update u₂)]).1.store.get? =
      (s.handleAll [(around, .update u₂), (around, .update u₁)]).1.store.get? := by
  by_cases hv : Name.validate u₁.subnet.name = .ok ()
  · rw [(handleAll_updates hcalm hname hv h₁ h₂ hs).2,
      (handleAll_updates hcalm hname.symm (hname ▸ hv) h₂ h₁ (hname ▸ hs)).2, hname,
      copyFields_comm h₁ h₂ hdisjoint]
  · have hv' : Name.validate u₂.subnet.name ≠ .ok () := hname ▸ hv
    simp only [handleAll, handle_update_of_invalid hv, handle_update_of_invalid hv']

/-- Neither of two updates without a common leaf is lost. -/
theorem keptBy_handleAll_updates (hcalm : around.Calm) (hname : u₂.subnet.name = u₁.subnet.name)
    (hv : Name.validate u₁.subnet.name = .ok ()) (h₁ : resolve u₁.updateMask = .ok fields₁)
    (h₂ : resolve u₂.updateMask = .ok fields₂)
    (hdisjoint : ∀ leaf, Covers u₁.updateMask leaf → ¬ Covers u₂.updateMask leaf)
    (hs : s.store.get? u₁.subnet.name = some stored) :
    let served := s.handleAll [(around, .update u₁), (around, .update u₂)]
    u₁.KeptBy served.1 ∧ u₂.KeptBy served.1 := by
  intro served
  have hlast : served.1.store.get? u₁.subnet.name =
      some (copyFields (copyFields stored u₁.subnet fields₁) u₂.subnet fields₂) := by
    rw [(handleAll_updates hcalm hname hv h₁ h₂ hs).2, Function.update_self]
  refine ⟨⟨_, hlast, fun leaf hleaf => ?_⟩, ⟨_, hname ▸ hlast, fun leaf hleaf => ?_⟩⟩
  · rw [read_copyFields_of_not_covers h₂ _ _ (hdisjoint leaf hleaf),
      read_copyFields_of_covers h₁ _ _ hleaf]
  · rw [read_copyFields_of_covers h₂ _ _ hleaf]

/-- The later of two updates by the same mask is all there is. Updates by masks without a common leaf
can be made in either order. At the service, two such updates of a stored subnet leave the same
behind, whichever comes first; both succeed, and what is stored reads as both of them asked. -/
theorem successive_updates :
    (∀ mask fields (target source₁ source₂ : Subnet), resolve mask = .ok fields →
        ∃ first second, apply mask target source₁ = .ok first ∧
          apply mask first source₂ = .ok second ∧ apply mask target source₂ = .ok second) ∧
      (∀ mask₁ mask₂ fields₁ fields₂ (target source₁ source₂ : Subnet),
        resolve mask₁ = .ok fields₁ → resolve mask₂ = .ok fields₂ →
        (∀ leaf, Covers mask₁ leaf → ¬ Covers mask₂ leaf) →
        ∃ first second both, apply mask₁ target source₁ = .ok first ∧
          apply mask₂ first source₂ = .ok both ∧ apply mask₂ target source₂ = .ok second ∧
          apply mask₁ second source₁ = .ok both) ∧
      ∀ (s : Service) (around : Surroundings) (u₁ u₂ : UpdateRequest) fields₁ fields₂,
        around.Calm → u₂.subnet.name = u₁.subnet.name →
        s.store.contains u₁.subnet.name = true →
        resolve u₁.updateMask = .ok fields₁ → resolve u₂.updateMask = .ok fields₂ →
        (∀ leaf, Covers u₁.updateMask leaf → ¬ Covers u₂.updateMask leaf) →
        let served := s.handleAll [(around, .update u₁), (around, .update u₂)]
        let swapped := s.handleAll [(around, .update u₂), (around, .update u₁)]
        served.1.store.get? = swapped.1.store.get? ∧
          (Name.validate u₁.subnet.name = .ok () →
            (∀ entry ∈ served.2 ++ swapped.2, ∃ v, entry.2 = .ok (.subnet v)) ∧
              u₁.KeptBy served.1 ∧ u₂.KeptBy served.1) := by
  refine ⟨?_, ?_, ?_⟩
  · intro mask fields target source₁ source₂ h
    refine ⟨_, _, apply_of_resolve h target source₁, apply_of_resolve h _ source₂, ?_⟩
    rw [copyFields_copyFields h, apply_of_resolve h]
  · intro mask₁ mask₂ fields₁ fields₂ target source₁ source₂ h₁ h₂ hdisjoint
    refine ⟨_, _, _, apply_of_resolve h₁ target source₁, apply_of_resolve h₂ _ source₂,
      apply_of_resolve h₂ target source₂, ?_⟩
    rw [copyFields_comm h₁ h₂ hdisjoint, apply_of_resolve h₁]
  · intro s around u₁ u₂ fields₁ fields₂ hcalm hname hs h₁ h₂ hdisjoint served swapped
    obtain ⟨stored, hs⟩ := Option.isSome_iff_exists.1 hs
    refine ⟨handleAll_updates_comm hcalm hname h₁ h₂ hdisjoint hs, fun hv => ⟨?_, ?_⟩⟩
    · obtain ⟨hserved, -⟩ := handleAll_updates hcalm hname hv h₁ h₂ hs
      obtain ⟨hswapped, -⟩ :=
        handleAll_updates hcalm hname.symm (hname ▸ hv) h₂ h₁ (hname ▸ hs)
      rw [hserved, hswapped]
      simp
    · exact keptBy_handleAll_updates hcalm hname hv h₁ h₂ hdisjoint hs

/-- Two updates that both create the specification, one of which clears the status. -/
theorem successive_updates_sideBySide :
    let stored : Subnet := { name := "subnets/a", status := some ⟨1, 2⟩ }
    let s : Service := ⟨Store.ofSeed [("subnets/a", stored)], 0⟩
    let around : Surroundings := ⟨Identifier.generate 0, fun _ => none⟩
    let u₁ : UpdateRequest :=
      ⟨{ name := "subnets/a", spec := some { vpcNameRef := "v" } }, some ⟨["spec.vpc_name_ref"]⟩, false⟩
    let u₂ : UpdateRequest :=
      ⟨{ name := "subnets/a", spec := some { v4Prefix := some ⟨7, 8⟩ } },
        some ⟨["status", "spec.v4_prefix.len"]⟩, true⟩
    let served := s.handleAll [(around, .update u₁), (around, .update u₂)]
    let swapped := s.handleAll [(around, .update u₂), (around, .update u₁)]
    (∀ leaf, Covers u₁.updateMask leaf → ¬ Covers u₂.updateMask leaf) ∧
      served.1.store.get? = swapped.1.store.get? ∧ u₁.KeptBy served.1 ∧ u₂.KeptBy served.1 ∧
      (∃ first second both, apply u₁.updateMask stored u₁.subnet = .ok first ∧
        apply u₂.updateMask first u₂.subnet = .ok both ∧
        apply u₂.updateMask stored u₂.subnet = .ok second ∧
        apply u₁.updateMask second u₁.subnet = .ok both) ∧
      ∃ first second, apply u₂.updateMask stored u₁.subnet = .ok first ∧
        apply u₂.updateMask first u₂.subnet = .ok second ∧
        apply u₂.updateMask stored u₂.subnet = .ok second := by
  intro stored s around u₁ u₂ served swapped
  obtain ⟨hoverride, hswap, hservice⟩ := successive_updates
  have h₁ : resolve u₁.updateMask = .ok [.vpcNameRef] := rfl
  have h₂ : resolve u₂.updateMask = .ok [.status, .v4PrefixLen] := rfl
  have hdisjoint : ∀ leaf, Covers u₁.updateMask leaf → ¬ Covers u₂.updateMask leaf := by
    intro leaf
    cases leaf <;> decide
  have hname : Name.validate "subnets/a" = .ok () := Name.validate_eq_ok_iff.2 (by decide +kernel)
  obtain ⟨hsame, hboth⟩ :=
    hservice s around u₁ u₂ _ _ (fun _ => rfl) rfl (by decide +kernel) h₁ h₂ hdisjoint
  exact ⟨hdisjoint, hsame, (hboth hname).2.1, (hboth hname).2.2,
    hswap _ _ _ _ stored u₁.subnet u₂.subnet h₁ h₂ hdisjoint,
    hoverride _ _ stored u₁.subnet u₂.subnet h₂⟩

end Service
end SubnetRegistry
