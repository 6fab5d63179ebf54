import SubnetRegistry.Proofs.Mask.Parts

/-!
# Masks that make the same update

A subnet is its name, what its leaves read and which of its parts are set. So two masks make the same
update if they cover the same leaves and agree on the parts. Where the source has all of its parts,
covering the same leaves is enough; where a mask has no path inside another of its paths, having the
same paths is enough. A full replacement is the update of specification and status.

## Main statements

* `Subnet.ext_of_read` — a subnet is determined by its name, its leaves and its parts.
* `FieldMask.untouched_iff` — the parts that an update leaves alone are those of which it covers no
  leaf.
* `FieldMask.isSet_copyFields_of_isSet` — the parts of a source that has them come out set if any of
  their leaves is covered.
* `SubnetPart.copiedLast_iff`, `SubnetPart.changedLast_iff_exists` — among separate paths, the order
  makes no difference.
* `FieldMask.equivalent_masks` — when two masks make the same update.
-/
namespace SubnetRegistry

/-! ## Subnets by their leaves and parts -/

attribute [ext] Ipv4Prefix SubnetSpec SubnetStatus Subnet

/-- What may be unset is known from what it reads and whether it is set. -/
theorem eq_of_getD_eq {α : Type} {o o' : Option α} {default : α}
    (hread : o.getD default = o'.getD default) (hset : o.isSome = o'.isSome) : o = o' := by
  cases o <;> cases o' <;> simp_all

/-- A subnet is determined by its name, what its leaves read and which of its parts are set. -/
theorem Subnet.ext_of_read {s t : Subnet} (hname : s.name = t.name)
    (hread : ∀ leaf : SubnetLeaf, leaf.read s = leaf.read t)
    (hset : ∀ part : SubnetPart, part.isSet s = part.isSet t) : s = t := by
  have hrange : s.specOrDefault.v4Prefix = t.specOrDefault.v4Prefix := by
    refine eq_of_getD_eq (Ipv4Prefix.ext (hread .v4PrefixAddr) (hread .v4PrefixLen)) ?_
    rw [← SubnetPart.isSet_v4Prefix, ← SubnetPart.isSet_v4Prefix]
    exact hset .v4Prefix
  have hspec : s.specOrDefault = t.specOrDefault :=
    SubnetSpec.ext (hread .vpcNameRef) hrange (hread .ipv4VirtualRouterIp) (hread .virtualRouterMac)
      (hread .v4RouteTableNameRef)
  have hstatus : s.statusOrDefault = t.statusOrDefault :=
    SubnetStatus.ext (hread .hwIndex) (hread .vnicCount)
  exact Subnet.ext hname (eq_of_getD_eq hspec (hset .spec)) (eq_of_getD_eq hstatus (hset .status))

/-! ## Leaves and parts -/

theorem reaches_trans {p q r : String} (h : Reaches p q) (h' : Reaches q r) : Reaches p r :=
  List.IsPrefix.trans h h'

/-- Every field is a leaf or around one. -/
theorem SubnetField.exists_leaf (f : SubnetField) : ∃ leaf : SubnetLeaf, Reaches f.path leaf.path := by
  cases f
  case spec => exact ⟨.vpcNameRef, by decide⟩
  case v4Prefix => exact ⟨.v4PrefixAddr, by decide⟩
  case status => exact ⟨.hwIndex, by decide⟩
  case vpcNameRef => exact ⟨.vpcNameRef, by decide⟩
  case v4PrefixAddr => exact ⟨.v4PrefixAddr, by decide⟩
  case v4PrefixLen => exact ⟨.v4PrefixLen, by decide⟩
  case ipv4VirtualRouterIp => exact ⟨.ipv4VirtualRouterIp, by decide⟩
  case virtualRouterMac => exact ⟨.virtualRouterMac, by decide⟩
  case v4RouteTableNameRef => exact ⟨.v4RouteTableNameRef, by decide⟩
  case hwIndex => exact ⟨.hwIndex, by decide⟩
  case vnicCount => exact ⟨.vnicCount, by decide⟩

namespace SubnetPart

variable {part : SubnetPart}

/-- A field is around a part or inside it if they have a leaf in common. -/
theorem around_or_inside_iff (f : SubnetField) :
    part.Around f.path ∨ part.Inside f.path ↔
      ∃ leaf : SubnetLeaf, Reaches part.path leaf.path ∧ Reaches f.path leaf.path := by
  constructor
  · rintro (haround | ⟨hinside, -⟩)
    · obtain ⟨leaf, hleaf⟩ := part.field.exists_leaf
      exact ⟨leaf, hleaf, reaches_trans haround hleaf⟩
    · obtain ⟨leaf, hleaf⟩ := f.exists_leaf
      exact ⟨leaf, reaches_trans hinside hleaf, hleaf⟩
  · rintro ⟨leaf, hpart, hf⟩
    by_cases haround : part.Around f.path
    · exact .inl haround
    · exact .inr ⟨(List.prefix_or_prefix_of_prefix hf hpart).resolve_left haround, haround⟩

end SubnetPart

namespace FieldMask

variable {mask mask' : Option FieldMask} {fields fields' : List SubnetField} {part : SubnetPart}
  {leaf : SubnetLeaf} {target source : Subnet}

/-- The leaves that a mask covers are those that the copied fields lead to. -/
theorem covers_iff_copied (h : resolve mask = .ok fields) :
    Covers mask leaf ↔ ∃ f ∈ copied fields, Reaches f.path leaf.path := by
  rw [covers_iff h, copied]
  by_cases hnil : fields = []
  · rw [if_pos hnil]
    refine iff_of_true (.inl hnil) ?_
    cases leaf <;> decide
  · rw [if_neg hnil, or_iff_right hnil]

/-- The parts that an update leaves alone are those of which it covers no leaf. -/
theorem untouched_iff (h : resolve mask = .ok fields) :
    part.Untouched (copiedPaths fields) ↔
      ∀ leaf : SubnetLeaf, Reaches part.path leaf.path → ¬ Covers mask leaf := by
  have htouched : ∀ f : SubnetField, (¬ part.Around f.path ∧ ¬ part.Inside f.path) ↔
      ∀ leaf : SubnetLeaf, Reaches part.path leaf.path → ¬ Reaches f.path leaf.path := fun f => by
    rw [← not_or, SubnetPart.around_or_inside_iff]
    simp only [not_exists, not_and]
  simp only [SubnetPart.Untouched, copiedPaths, List.forall_mem_map, htouched, covers_iff_copied h,
    not_exists, not_and]
  exact ⟨fun hf leaf hleaf f hmem => hf f hmem leaf hleaf,
    fun hl f hmem leaf hleaf => hl leaf hleaf f hmem⟩

/-- A part that an update reaches is set, if the source has it. -/
theorem isSet_copyFields_of_isSet
    (h : ¬ part.Untouched (copiedPaths fields)) (hset : part.isSet source = true)
    (target : Subnet) : part.isSet (copyFields target source fields) = true := by
  have hdecided := decided_copyFields part target source fields
  rcases part.untouched_or_last (copiedPaths fields) with hu | hlast | hlast
  · exact absurd hu h
  · rw [hdecided.copied hlast, hset]
  · exact hdecided.changed hlast

/-- A leaf reads the same after updates that both cover it, or that both do not. -/
theorem read_copyFields_congr (h : resolve mask = .ok fields) (h' : resolve mask' = .ok fields')
    (hcovers : Covers mask leaf ↔ Covers mask' leaf) (target source : Subnet) :
    leaf.read (copyFields target source fields) = leaf.read (copyFields target source fields') := by
  by_cases hleaf : Covers mask leaf
  · rw [read_copyFields_of_covers h _ _ hleaf, read_copyFields_of_covers h' _ _ (hcovers.1 hleaf)]
  · rw [read_copyFields_of_not_covers h _ _ hleaf,
      read_copyFields_of_not_covers h' _ _ (mt hcovers.2 hleaf)]

/-- From a source that has all of its parts, masks that cover the same leaves make the same update. -/
theorem copyFields_eq_of_covers (h : resolve mask = .ok fields) (h' : resolve mask' = .ok fields')
    (hcovers : ∀ leaf, Covers mask leaf ↔ Covers mask' leaf)
    (hset : ∀ part : SubnetPart, part.isSet source = true) (target : Subnet) :
    copyFields target source fields = copyFields target source fields' := by
  refine Subnet.ext_of_read (by simp) (fun leaf => ?_) (fun part => ?_)
  · exact read_copyFields_congr h h' (hcovers leaf) target source
  · have huntouched : part.Untouched (copiedPaths fields) ↔ part.Untouched (copiedPaths fields') := by
      simp only [untouched_iff h, untouched_iff h', hcovers]
    by_cases hu : part.Untouched (copiedPaths fields)
    · rw [(decided_copyFields part target source fields).untouched hu,
        (decided_copyFields part target source fields').untouched (huntouched.1 hu)]
    · rw [isSet_copyFields_of_isSet hu (hset part),
        isSet_copyFields_of_isSet (mt huntouched.2 hu) (hset part)]

end FieldMask

/-! ## Separate paths -/

/-- None of the paths leads to another one. -/
def Separate (paths : List String) : Prop := ∀ p ∈ paths, ∀ q ∈ paths, Reaches p q → p = q

namespace SubnetPart

variable {part : SubnetPart} {order order' : List String} {target source s t : Subnet}

/-- Where paths of the two kinds do not meet, it is enough that one of the kind comes. -/
theorem comesLast_iff {one other : String → Prop}
    (h : ∀ p ∈ order, one p → ∀ q ∈ order, ¬ other q) :
    ComesLast one other order ↔ ∃ p ∈ order, one p := by
  constructor
  · rintro ⟨before, p, after, rfl, hp, -⟩
    exact ⟨p, by simp, hp⟩
  · rintro ⟨p, hmem, hp⟩
    obtain ⟨before, after, rfl⟩ := List.append_of_mem hmem
    exact ⟨before, p, after, rfl, hp, fun q hq => h p hmem hp q (by simp [hq])⟩

/-- A path around a part and one inside it are not separate. -/
theorem not_inside_of_around (h : Separate order) {p q : String} (hp : p ∈ order) (hq : q ∈ order)
    (haround : part.Around p) : ¬ part.Inside q := by
  rintro ⟨hinside, hnot⟩
  obtain rfl := h p hp q hq (reaches_trans haround hinside)
  exact hnot haround

theorem copiedLast_iff (h : Separate order) :
    part.CopiedLast order ↔ ∃ p ∈ order, part.Around p :=
  comesLast_iff fun _ hp haround _ hq => not_inside_of_around h hp hq haround

theorem changedLast_iff_exists (h : Separate order) :
    part.ChangedLast order ↔ ∃ p ∈ order, part.Inside p :=
  comesLast_iff fun _ hp hinside _ hq haround => not_inside_of_around h hq hp haround hinside

/-- The order of separate paths makes no difference to a part, nor does a path that stands there
twice. -/
theorem Decided.isSet_eq (h : part.Decided order target source s)
    (h' : part.Decided order' target source t) (hsep : Separate order)
    (hmem : ∀ p, p ∈ order' ↔ p ∈ order) : part.isSet s = part.isSet t := by
  have hsep' : Separate order' := fun p hp q hq => hsep p ((hmem p).1 hp) q ((hmem q).1 hq)
  rcases part.untouched_or_last order with hu | hlast | hlast
  · rw [h.untouched hu, h'.untouched fun p hp => hu p ((hmem p).1 hp)]
  · have hlast' : part.CopiedLast order' := by
      rw [copiedLast_iff hsep']
      simpa only [hmem] using (copiedLast_iff hsep).1 hlast
    rw [h.copied hlast, h'.copied hlast']
  · have hlast' : part.ChangedLast order' := by
      rw [changedLast_iff_exists hsep']
      simpa only [hmem] using (changedLast_iff_exists hsep).1 hlast
    rw [h.changed hlast, h'.changed hlast']

end SubnetPart

namespace FieldMask

variable {fields fields' : List SubnetField} {m m' : FieldMask} {target source : Subnet}

/-- Paths that name fields resolve. -/
theorem exists_fieldsOf {paths : List String} (h : ∀ p ∈ paths, ∃ f : SubnetField, f.path = p)
    (seen : List SubnetField) : ∃ fields, fieldsOf seen paths = .ok fields := by
  induction paths generalizing seen with
  | nil => exact ⟨[], rfl⟩
  | cons p rest ih =>
    obtain ⟨⟨f, rfl⟩, hrest⟩ := List.forall_mem_cons.1 h
    rw [fieldsOf, bind_of_eq_ok (SubnetField.ofPath_path f)]
    by_cases hseen : f ∈ seen
    · rw [if_pos hseen]
      exact ih hrest seen
    · obtain ⟨others, hothers⟩ := ih hrest (f :: seen)
      exact ⟨f :: others, by rw [if_neg hseen, bind_of_eq_ok hothers]; rfl⟩

/-- Whether a mask is accepted depends on which paths it has, but for the wildcard, which must not be
repeated. -/
theorem exists_resolve_of_mem_iff (h : resolve (some m) = .ok fields)
    (hmem : ∀ p, p ∈ m'.paths ↔ p ∈ m.paths)
    (hlone : m'.paths = [wildcardPath] ↔ m.paths = [wildcardPath]) :
    ∃ fields', resolve (some m') = .ok fields' := by
  obtain ⟨-, hfull⟩ | ⟨_, ⟨⟩, hne, hstar, hfields⟩ := resolve_cases h
  · rcases hfull m rfl with hnil | hone
    · have hnil' : m'.paths = [] := by
        rw [List.eq_nil_iff_forall_not_mem] at hnil ⊢
        exact fun p => mt (hmem p).1 (hnil p)
      exact ⟨[], by simp [resolve, isFullReplace, hnil']⟩
    · exact ⟨[], by simp [resolve, isFullReplace, hlone.2 hone]⟩
  · have hstar' : wildcardPath ∉ m'.paths := mt (hmem _).1 hstar
    obtain ⟨fields', hfields'⟩ := exists_fieldsOf
      (fun p hp => (mem_fieldsOf_iff hfields).1 p ((hmem p).1 hp)) []
    refine ⟨if m'.isFullReplace then [] else fields', ?_⟩
    rw [resolve]
    simp only [hstar', List.contains_eq_mem, decide_false, Bool.and_false, Bool.false_eq_true,
      if_false, hfields']
    split <;> rfl

/-- An accepted mask replaces everything if it has no path or the wildcard. -/
theorem isFullReplace_iff (h : resolve (some m) = .ok fields) :
    m.isFullReplace = true ↔ m.paths = [] ∨ wildcardPath ∈ m.paths := by
  rw [isFullReplace, Bool.or_eq_true, List.isEmpty_iff, beq_iff_eq]
  refine or_congr_right ⟨fun hone => by simp [hone], fun hstar => ?_⟩
  obtain ⟨-, hfull⟩ | ⟨_, ⟨⟩, -, hnot, -⟩ := resolve_cases h
  · exact (hfull m rfl).resolve_left (List.ne_nil_of_mem hstar)
  · exact absurd hstar hnot

/-- Accepted masks that have the same separate paths make the same update. -/
theorem copyFields_eq_of_separate (h : resolve (some m) = .ok fields)
    (h' : resolve (some m') = .ok fields') (hsep : Separate m.paths)
    (hmem : ∀ p, p ∈ m'.paths ↔ p ∈ m.paths) (target source : Subnet) :
    copyFields target source fields' = copyFields target source fields := by
  have hfull : m'.isFullReplace = true ↔ m.isFullReplace = true := by
    rw [isFullReplace_iff h, isFullReplace_iff h', List.eq_nil_iff_forall_not_mem,
      List.eq_nil_iff_forall_not_mem]
    simp only [hmem]
  cases hm : m.isFullReplace with
  | true =>
    obtain rfl := (eq_nil_iff_of_resolve h).2 hm
    obtain rfl := (eq_nil_iff_of_resolve h').2 (hfull.2 hm)
    rfl
  | false =>
    have hm' : m'.isFullReplace = false := Bool.eq_false_iff.2 (mt hfull.1 (by simp [hm]))
    refine Subnet.ext_of_read (by simp) (fun leaf => ?_) (fun part => ?_)
    · exact read_copyFields_congr h' h (covers_congr h' h hmem) target source
    · have horder' := decided_of_resolve h' hm' part target source
      have horder := decided_of_resolve h hm part target source
      refine horder'.isSet_eq horder ?_ ?_
      · intro p hp q hq
        rw [List.mem_eraseDups, hmem] at hp hq
        exact hsep p hp q hq
      · simp [hmem]

/-- Masks with the same separate paths are both accepted and make the same update, or are both
refused. -/
theorem toOption_apply_of_separate (hsep : Separate m.paths) (hmem : ∀ p, p ∈ m'.paths ↔ p ∈ m.paths)
    (hlone : m'.paths = [wildcardPath] ↔ m.paths = [wildcardPath]) (target source : Subnet) :
    (apply (some m') target source).toOption = (apply (some m) target source).toOption := by
  cases h : resolve (some m) with
  | ok fields =>
    obtain ⟨fields', h'⟩ := exists_resolve_of_mem_iff h hmem hlone
    rw [apply_of_resolve h, apply_of_resolve h', copyFields_eq_of_separate h h' hsep hmem]
  | error e =>
    cases h' : resolve (some m') with
    | ok fields' =>
      obtain ⟨fields, hfields⟩ := exists_resolve_of_mem_iff h' (fun p => (hmem p).symm) hlone.symm
      cases h.symm.trans hfields
    | error e' =>
      rw [apply_of_refused h, apply_of_refused h']
      rfl

/-- From a source that has all of its parts, accepted masks that cover the same leaves make the same
update. From any source, so do masks with the same paths, in any order and any number of times, if no
path leads to another one; only the wildcard must not be repeated. A full replacement is the update of
specification and status. -/
theorem equivalent_masks (target source : Subnet) :
    (∀ mask mask' fields fields', resolve mask = .ok fields → resolve mask' = .ok fields' →
        (∀ leaf, Covers mask leaf ↔ Covers mask' leaf) →
        (∀ part : SubnetPart, part.isSet source = true) →
        ∃ updated, apply mask target source = .ok updated ∧
          apply mask' target source = .ok updated) ∧
      (∀ m m' : FieldMask, Separate m.paths → (∀ p, p ∈ m'.paths ↔ p ∈ m.paths) →
        (m'.paths = [wildcardPath] ↔ m.paths = [wildcardPath]) →
        (apply (some m') target source).toOption = (apply (some m) target source).toOption) ∧
      (∀ n, apply (some ⟨List.replicate (n + 2) wildcardPath⟩) target source =
        .error (.invalidFieldMask .wildcardWithOtherPaths)) ∧
      ∀ mask, replacesAll mask = true → ∃ updated, apply mask target source = .ok updated ∧
        apply (some ⟨["spec", "status"]⟩) target source = .ok updated ∧
        apply (some ⟨["status", "spec"]⟩) target source = .ok updated := by
  refine ⟨?_, ?_, ?_, ?_⟩
  · intro mask mask' fields fields' h h' hcovers hset
    refine ⟨copyFields target source fields, apply_of_resolve h target source, ?_⟩
    rw [apply_of_resolve h', copyFields_eq_of_covers h h' hcovers hset]
  · intro m m' hsep hmem hlone
    exact toOption_apply_of_separate hsep hmem hlone target source
  · intro n
    simp [apply, resolve, List.replicate_succ]
  · intro mask hfull
    exact ⟨_, apply_of_resolve (resolve_of_replacesAll hfull) target source, rfl, rfl⟩

theorem equivalent_masks_respelled :
    let target : Subnet := { name := "subnets/a" }
    let source : Subnet :=
      { name := "b", spec := some { v4Prefix := some ⟨7, 8⟩ }, status := some ⟨1, 2⟩ }
    let whole : FieldMask := ⟨["spec.v4_prefix"]⟩
    let leaves : FieldMask := ⟨["spec.v4_prefix.len", "spec.v4_prefix.addr", "spec.v4_prefix.len"]⟩
    let listed : FieldMask := ⟨["status.hw_index", "spec"]⟩
    let relisted : FieldMask := ⟨["spec", "status.hw_index", "spec"]⟩
    ((∀ leaf, Covers (some whole) leaf ↔ Covers (some leaves) leaf) ∧
        ∃ updated, apply (some whole) target source = .ok updated ∧
          apply (some leaves) target source = .ok updated) ∧
      (Separate listed.paths ∧ (∀ p, p ∈ relisted.paths ↔ p ∈ listed.paths) ∧
        (apply (some relisted) target {}).toOption = (apply (some listed) target {}).toOption) ∧
      (replacesAll (some wildcard) = true ∧ ∃ updated,
        apply (some wildcard) target source = .ok updated ∧
          apply (some ⟨["spec", "status"]⟩) target source = .ok updated) := by
  intro target source whole leaves listed relisted
  obtain ⟨hcovering, -, -, hfull⟩ := equivalent_masks target source
  obtain ⟨-, hlisting, -, -⟩ := equivalent_masks target {}
  have hcovers : ∀ leaf, Covers (some whole) leaf ↔ Covers (some leaves) leaf := by
    intro leaf
    cases leaf <;> decide
  have hset : ∀ part : SubnetPart, part.isSet source = true := by
    intro part
    cases part <;> rfl
  have hsep : Separate listed.paths := by
    unfold Separate
    decide
  have hmem : ∀ p, p ∈ relisted.paths ↔ p ∈ listed.paths := by
    intro p
    simp [relisted, listed, or_comm]
  obtain ⟨updated, hupdated, hsame, -⟩ := hfull (some wildcard) rfl
  exact ⟨⟨hcovers, hcovering _ _ _ _ rfl rfl hcovers hset⟩,
    ⟨hsep, hmem, hlisting listed relisted hsep hmem (by decide)⟩, rfl, updated, hupdated, hsame⟩

/-- The wildcard alone is accepted. Repeated, it is refused like a wildcard beside other paths. -/
theorem refused_of_repeated_wildcard :
    let target : Subnet := { name := "subnets/a" }
    let source : Subnet := { name := "b", spec := some { vpcNameRef := "v" } }
    let doubled : FieldMask := ⟨["*", "*"]⟩
    Separate wildcard.paths ∧ (∀ p, p ∈ doubled.paths ↔ p ∈ wildcard.paths) ∧
      apply (some wildcard) target source = .ok (source.named "subnets/a") ∧
      apply (some doubled) target source = .error (.invalidFieldMask .wildcardWithOtherPaths) := by
  intro target source doubled
  have hsep : Separate wildcard.paths := by
    unfold Separate
    decide
  have hmem : ∀ p, p ∈ doubled.paths ↔ p ∈ wildcard.paths := by
    intro p
    simp [doubled, wildcard, wildcardPath]
  exact ⟨hsep, hmem, rfl, rfl⟩

end FieldMask
end SubnetRegistry
