import SubnetRegistry.Proofs.Mask.Equivalence

/-!
# One update after another

A mask says which leaves an update writes and which parts it decides, whatever the target. So the
later of two updates by the same mask leaves nothing of the earlier one, and updates by masks without
a common leaf can be made in either order: where both reach a part, both only change what is in it.

## Main statements

* `FieldMask.isSet_copyFields_congr` — a part that an update reaches does not depend on the target.
* `FieldMask.copyFields_copyFields` — the later of two updates by one mask is all there is.
* `FieldMask.copyFields_comm` — updates without a common leaf can be made in either order.
* `FieldMask.read_copyFields_self` — an update of a subnet from itself changes no leaf.
-/
namespace SubnetRegistry.FieldMask

variable {mask mask₁ mask₂ : Option FieldMask} {fields fields₁ fields₂ : List SubnetField}
  {part : SubnetPart} {leaf : SubnetLeaf}

/-- A part that an update reaches comes out the same, whatever the target. -/
theorem isSet_copyFields_congr (h : ¬ part.Untouched (copiedPaths fields))
    (target target' source : Subnet) :
    part.isSet (copyFields target source fields) = part.isSet (copyFields target' source fields) := by
  have hdecided := decided_copyFields part target source fields
  have hdecided' := decided_copyFields part target' source fields
  rcases part.untouched_or_last (copiedPaths fields) with hu | hlast | hlast
  · exact absurd hu h
  · rw [hdecided.copied hlast, hdecided'.copied hlast]
  · rw [hdecided.changed hlast, hdecided'.changed hlast]

/-- The later of two updates by the same mask is all there is. -/
theorem copyFields_copyFields (h : resolve mask = .ok fields) (target source₁ source₂ : Subnet) :
    copyFields (copyFields target source₁ fields) source₂ fields =
      copyFields target source₂ fields := by
  refine Subnet.ext_of_read (by simp) (fun leaf => ?_) (fun part => ?_)
  · by_cases hleaf : Covers mask leaf
    · rw [read_copyFields_of_covers h _ _ hleaf, read_copyFields_of_covers h _ _ hleaf]
    · simp only [read_copyFields_of_not_covers h _ _ hleaf]
  · by_cases hu : part.Untouched (copiedPaths fields)
    · rw [(decided_copyFields part _ source₂ fields).untouched hu,
        (decided_copyFields part _ source₂ fields).untouched hu,
        (decided_copyFields part target source₁ fields).untouched hu]
    · exact isSet_copyFields_congr hu _ target source₂

/-- A mask that copies a part covers all of its leaves. -/
theorem covers_of_copiedLast (h : resolve mask = .ok fields)
    (hcopied : part.CopiedLast (copiedPaths fields)) (hleaf : Reaches part.path leaf.path) :
    Covers mask leaf := by
  obtain ⟨before, p, after, horder, haround, -⟩ := hcopied
  have hp : p ∈ copiedPaths fields := by simp [horder]
  obtain ⟨f, hf, rfl⟩ := List.mem_map.1 hp
  exact (covers_iff_copied h).2 ⟨f, hf, reaches_trans haround hleaf⟩

/-- Of two updates without a common leaf that reach the same part, each changes what is in it. -/
theorem changedLast_of_disjoint (h₁ : resolve mask₁ = .ok fields₁) (h₂ : resolve mask₂ = .ok fields₂)
    (hdisjoint : ∀ leaf, Covers mask₁ leaf → ¬ Covers mask₂ leaf)
    (hu₁ : ¬ part.Untouched (copiedPaths fields₁)) (hu₂ : ¬ part.Untouched (copiedPaths fields₂)) :
    part.ChangedLast (copiedPaths fields₁) := by
  refine (SubnetPart.changedLast_iff hu₁).2 fun hcopied => hu₂ ?_
  rw [untouched_iff h₂]
  intro leaf hleaf
  exact hdisjoint leaf (covers_of_copiedLast h₁ hcopied hleaf)

/-- Updates by masks without a common leaf can be made in either order. -/
theorem copyFields_comm (h₁ : resolve mask₁ = .ok fields₁) (h₂ : resolve mask₂ = .ok fields₂)
    (hdisjoint : ∀ leaf, Covers mask₁ leaf → ¬ Covers mask₂ leaf)
    (target source₁ source₂ : Subnet) :
    copyFields (copyFields target source₁ fields₁) source₂ fields₂ =
      copyFields (copyFields target source₂ fields₂) source₁ fields₁ := by
  refine Subnet.ext_of_read (by simp) (fun leaf => ?_) (fun part => ?_)
  · by_cases hleaf₁ : Covers mask₁ leaf
    · have hleaf₂ := hdisjoint leaf hleaf₁
      simp only [read_copyFields_of_covers h₁ _ _ hleaf₁, read_copyFields_of_not_covers h₂ _ _ hleaf₂]
    · by_cases hleaf₂ : Covers mask₂ leaf
      · simp only [read_copyFields_of_covers h₂ _ _ hleaf₂,
          read_copyFields_of_not_covers h₁ _ _ hleaf₁]
      · simp only [read_copyFields_of_not_covers h₁ _ _ hleaf₁,
          read_copyFields_of_not_covers h₂ _ _ hleaf₂]
  · have hfirst := fun t => decided_copyFields part t source₁ fields₁
    have hsecond := fun t => decided_copyFields part t source₂ fields₂
    by_cases hu₁ : part.Untouched (copiedPaths fields₁) <;>
      by_cases hu₂ : part.Untouched (copiedPaths fields₂)
    · rw [(hsecond _).untouched hu₂, (hfirst _).untouched hu₁, (hfirst _).untouched hu₁,
        (hsecond _).untouched hu₂]
    · rw [(hfirst _).untouched hu₁]
      exact isSet_copyFields_congr hu₂ _ target source₂
    · rw [(hsecond _).untouched hu₂]
      exact isSet_copyFields_congr hu₁ target _ source₁
    · rw [(hsecond _).changed (changedLast_of_disjoint h₂ h₁ (fun leaf h₂ h₁ => hdisjoint leaf h₁ h₂)
        hu₂ hu₁), (hfirst _).changed (changedLast_of_disjoint h₁ h₂ hdisjoint hu₁ hu₂)]

/-- An update of a subnet from itself changes no leaf. -/
theorem read_copyFields_self (s : Subnet) (fields : List SubnetField) (leaf : SubnetLeaf) :
    leaf.read (copyFields s s fields) = leaf.read s := by
  rw [read_copyFields, ite_self]

end SubnetRegistry.FieldMask
