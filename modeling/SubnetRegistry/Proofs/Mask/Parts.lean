import Mathlib.Data.List.Basic
import Mathlib.Data.List.Induction
import SubnetRegistry.Proofs.Mask.Leaves

/-!
# Which parts are set after an update

The specification of a subnet, the address range in it and the status can be unset. Unlike what the
leaves read, which parts are set depends on the order of the paths of a mask: a path at a part, or
around it, takes it over from the source, set or unset, and a path inside it sets it. The last path
that does either decides. A path that stands there twice counts where it stands first.

## Main definitions

* `SubnetPart`, `SubnetPart.isSet` — the parts, and whether they are set.
* `SubnetPart.CopiedLast`, `SubnetPart.ChangedLast` — which kind of path comes last.
* `SubnetPart.Decided` — what the paths in their order say of a part.

## Main statements

* `SubnetPart.isSet_copy` — what copying one field does to a part.
* `FieldMask.map_path_fieldsOf` — the fields of a mask are in the order in which their paths first
  occur.
* `FieldMask.isSet_apply` — what an update does to every part.
-/
namespace SubnetRegistry

/-- The parts of a subnet that can be unset. -/
inductive SubnetPart where
  | spec
  | v4Prefix
  | status
  deriving DecidableEq, Repr

namespace SubnetPart

def field : SubnetPart → SubnetField
  | .spec => .spec
  | .v4Prefix => .v4Prefix
  | .status => .status

def path (part : SubnetPart) : String := part.field.path

/-- Whether a part is set. There is no address range in a specification that is unset. -/
def isSet (s : Subnet) : SubnetPart → Bool
  | .spec => s.spec.isSome
  | .v4Prefix => (s.spec.bind SubnetSpec.v4Prefix).isSome
  | .status => s.status.isSome

/-- The path is the part's, or of something around it. -/
def Around (part : SubnetPart) (p : String) : Prop := Reaches p part.path

def Inside (part : SubnetPart) (p : String) : Prop := Reaches part.path p ∧ ¬ part.Around p

instance (part : SubnetPart) (p : String) : Decidable (part.Around p) :=
  inferInstanceAs (Decidable (Reaches p part.path))

instance (part : SubnetPart) (p : String) : Decidable (part.Inside p) :=
  inferInstanceAs (Decidable (Reaches part.path p ∧ ¬ part.Around p))

example : SubnetField.all.filter (fun f => SubnetPart.v4Prefix.Around f.path) = [.spec, .v4Prefix] ∧
    SubnetField.all.filter (fun f => SubnetPart.v4Prefix.Inside f.path) =
      [.v4PrefixAddr, .v4PrefixLen] := by
  decide

/-- An unset specification has the address range of the default one, which is none. -/
theorem isSet_v4Prefix (s : Subnet) :
    SubnetPart.v4Prefix.isSet s = s.specOrDefault.v4Prefix.isSome := by
  obtain ⟨name, spec, status⟩ := s
  cases spec <;> rfl

/-- Copying a field copies the parts that its path is around and sets those that it is inside. -/
theorem isSet_copy (part : SubnetPart) (f : SubnetField) (target source : Subnet) :
    part.isSet (f.copy target source) =
      if part.Around f.path then part.isSet source
      else if part.Inside f.path then true else part.isSet target := by
  cases part with
  | v4Prefix =>
    -- the copies are made of the specifications with their defaults
    simp only [isSet_v4Prefix]
    cases f <;> rfl
  | spec | status => cases f <;> rfl

/-! ## The last path -/

/-- A path of the one kind comes, and none of the other kind comes after it. -/
def ComesLast (one other : String → Prop) (order : List String) : Prop :=
  ∃ before p after, order = before ++ p :: after ∧ one p ∧ ∀ q ∈ after, ¬ other q

theorem not_comesLast_nil {one other : String → Prop} : ¬ ComesLast one other [] := by
  rintro ⟨before, p, after, h, -⟩
  simp at h

theorem comesLast_append_singleton {one other : String → Prop} {order : List String} {p : String} :
    ComesLast one other (order ++ [p]) ↔ one p ∨ (¬ other p ∧ ComesLast one other order) := by
  constructor
  · rintro ⟨before, q, after, h, hq, hafter⟩
    rcases List.eq_nil_or_concat after with rfl | ⟨after, last, rfl⟩
    · obtain ⟨-, hp⟩ := List.append_inj' h rfl
      cases hp
      exact .inl hq
    · rw [List.concat_eq_append, ← List.cons_append, ← List.append_assoc] at h
      obtain ⟨rfl, hp⟩ := List.append_inj' h rfl
      cases hp
      rw [List.concat_eq_append] at hafter
      exact .inr ⟨hafter _ (by simp), before, q, after, rfl, hq, fun r hr => hafter r (by simp [hr])⟩
  · rintro (hp | ⟨hp, before, q, after, rfl, hq, hafter⟩)
    · exact ⟨order, p, [], rfl, hp, nofun⟩
    · refine ⟨before, q, after ++ [p], by simp, hq, fun r hr => ?_⟩
      rcases List.mem_append.1 hr with hr | hr
      · exact hafter r hr
      · exact List.mem_singleton.1 hr ▸ hp

def CopiedLast (part : SubnetPart) (order : List String) : Prop :=
  ComesLast part.Around part.Inside order

def ChangedLast (part : SubnetPart) (order : List String) : Prop :=
  ComesLast part.Inside part.Around order

def Untouched (part : SubnetPart) (order : List String) : Prop :=
  ∀ p ∈ order, ¬ part.Around p ∧ ¬ part.Inside p

variable {part : SubnetPart} {order : List String} {p : String}

theorem untouched_append_singleton :
    part.Untouched (order ++ [p]) ↔
      part.Untouched order ∧ ¬ part.Around p ∧ ¬ part.Inside p := by
  rw [Untouched, List.forall_mem_append, List.forall_mem_singleton]
  rfl

/-- Unless a part is left alone, one of the two kinds of path comes last and the other does not. -/
theorem changedLast_iff (h : ¬ part.Untouched order) :
    part.ChangedLast order ↔ ¬ part.CopiedLast order := by
  induction order using List.reverseRecOn with
  | nil => exact absurd (fun _ hp => absurd hp List.not_mem_nil) h
  | append_singleton order p ih =>
    rw [untouched_append_singleton] at h
    rw [ChangedLast, CopiedLast, comesLast_append_singleton, comesLast_append_singleton]
    by_cases haround : part.Around p
    · have hinside : ¬ part.Inside p := fun hp => hp.2 haround
      simp [haround, hinside]
    · by_cases hinside : part.Inside p
      · simp [haround, hinside]
      · have hdecided : ComesLast part.Inside part.Around order ↔
            ¬ ComesLast part.Around part.Inside order := ih fun hu => h ⟨hu, haround, hinside⟩
        simp [haround, hinside, hdecided]

/-- A part is left alone, copied last or changed last. -/
theorem untouched_or_last (part : SubnetPart) (order : List String) :
    part.Untouched order ∨ part.CopiedLast order ∨ part.ChangedLast order := by
  by_cases hu : part.Untouched order
  · exact .inl hu
  · rw [changedLast_iff hu]
    exact .inr (em _)

/-- What paths in this order say of a part: whether it is set in `updated`, which `target` became from
`source`. -/
structure Decided (part : SubnetPart) (order : List String) (target source updated : Subnet) :
    Prop where
  /-- A part that no path is around or inside is set if it was. -/
  untouched : part.Untouched order → part.isSet updated = part.isSet target
  /-- A part that is copied last is set if it is in the source. -/
  copied : part.CopiedLast order → part.isSet updated = part.isSet source
  /-- A part that is changed last is set. -/
  changed : part.ChangedLast order → part.isSet updated = true
  /-- There is nothing else. -/
  decisive : ¬ part.Untouched order → (part.ChangedLast order ↔ ¬ part.CopiedLast order)

/-- Of fields that are copied one after the other, the last one that matters to a part decides. -/
theorem decided_foldl_copy (part : SubnetPart) (fields : List SubnetField) (target source : Subnet) :
    part.Decided (fields.map SubnetField.path) target source
      (fields.foldl (fun t f => f.copy t source) target) := by
  induction fields using List.reverseRecOn with
  | nil => exact ⟨fun _ => rfl, fun h => absurd h not_comesLast_nil,
      fun h => absurd h not_comesLast_nil, changedLast_iff⟩
  | append_singleton fields f ih =>
    rw [List.foldl_append, List.map_append]
    refine ⟨fun h => ?_, fun h => ?_, fun h => ?_, changedLast_iff⟩ <;>
      rw [List.foldl_cons, List.foldl_nil, isSet_copy]
    · obtain ⟨hu, haround, hinside⟩ := untouched_append_singleton.1 h
      rw [if_neg haround, if_neg hinside]
      exact ih.untouched hu
    · rcases comesLast_append_singleton.1 h with haround | ⟨hinside, h⟩
      · rw [if_pos haround]
      · rw [if_neg hinside]
        split
        · rfl
        · exact ih.copied h
    · rcases comesLast_append_singleton.1 h with hinside | ⟨haround, h⟩
      · rw [if_neg hinside.2, if_pos hinside]
      · rw [if_neg haround]
        split
        · rfl
        · exact ih.changed h

end SubnetPart

namespace FieldMask

variable {mask : Option FieldMask} {fields : List SubnetField}

/-- The fields of a list of paths are in the order in which their paths first occur. -/
theorem map_path_fieldsOf {seen : List SubnetField} {paths : List String}
    (h : fieldsOf seen paths = .ok fields) :
    fields.map SubnetField.path =
      (paths.filter fun p => p ∉ seen.map SubnetField.path).eraseDups := by
  induction paths generalizing seen fields with
  | nil =>
    cases h
    rfl
  | cons p rest ih =>
    obtain ⟨f, hf, hrest⟩ := exists_of_bind_eq_ok h
    obtain rfl := SubnetField.path_of_ofPath hf
    have hmem : f.path ∈ seen.map SubnetField.path ↔ f ∈ seen :=
      List.mem_map_of_injective fun _ _ => SubnetField.path_inj
    by_cases hseen : f ∈ seen
    · rw [if_pos hseen] at hrest
      rw [ih hrest, List.filter_cons_of_neg (by simpa using hmem.2 hseen)]
    · rw [if_neg hseen] at hrest
      obtain ⟨others, hothers, hcons⟩ := exists_of_bind_eq_ok hrest
      cases hcons
      rw [List.filter_cons_of_pos (by simpa using mt hmem.1 hseen), List.eraseDups_cons,
        List.filter_filter, List.map_cons, ih hothers]
      congr 3
      funext q
      by_cases hq : q = f.path <;> simp [hq]

/-- Whether an update replaces specification and status whole. -/
def replacesAll : Option FieldMask → Bool
  | none => true
  | some m => m.isFullReplace

theorem resolve_of_replacesAll (h : replacesAll mask = true) : resolve mask = .ok [] := by
  cases mask with
  | none => rfl
  | some m =>
    have hshort : m.paths = [] ∨ m.paths = [wildcardPath] := by
      simpa [replacesAll, isFullReplace] using h
    have hother : ¬ (1 < m.paths.length && m.paths.contains wildcardPath) = true := by
      rcases hshort with hp | hp <;> simp [hp]
    rw [resolve, if_neg hother]
    exact if_pos h

/-- The fields of a mask are in the order in which their paths first occur. -/
theorem map_path_of_resolve {m : FieldMask} (h : resolve (some m) = .ok fields)
    (hm : m.isFullReplace = false) : fields.map SubnetField.path = m.paths.eraseDups := by
  obtain ⟨-, hfull⟩ | ⟨_, ⟨⟩, -, -, hfields⟩ := resolve_cases h
  · have hm' : m.isFullReplace = true := by simpa [isFullReplace] using hfull m rfl
    rw [hm] at hm'
    cases hm'
  · rw [map_path_fieldsOf hfields, List.filter_eq_self.2 fun p _ => by simp]

/-- The accepted masks that name no field are those that replace everything. -/
theorem eq_nil_iff_of_resolve (h : resolve mask = .ok fields) :
    fields = [] ↔ replacesAll mask = true := by
  cases mask with
  | none =>
    cases h
    exact iff_of_true rfl rfl
  | some m =>
    cases hm : m.isFullReplace with
    | true =>
      obtain ⟨rfl, -⟩ | ⟨_, ⟨⟩, hne, hstar, -⟩ := resolve_cases h
      · exact iff_of_true rfl hm
      · simp only [isFullReplace, Bool.or_eq_true, List.isEmpty_iff, beq_iff_eq, hne, false_or] at hm
        exact absurd (hm ▸ List.mem_singleton_self _) hstar
    | false =>
      obtain ⟨p, hp⟩ : ∃ p, p ∈ m.paths := by
        refine List.exists_mem_of_ne_nil _ fun hnil => ?_
        simp [isFullReplace, hnil] at hm
      rw [← List.mem_eraseDups, ← map_path_of_resolve h hm] at hp
      obtain ⟨f, hf, -⟩ := List.mem_map.1 hp
      exact iff_of_false (List.ne_nil_of_mem hf) (by simp [replacesAll, hm])

/-- The fields that are copied: those that a mask names, or specification and status if it names
none. -/
def copied (fields : List SubnetField) : List SubnetField :=
  if fields = [] then [.spec, .status] else fields

def copiedPaths (fields : List SubnetField) : List String := (copied fields).map SubnetField.path

theorem copyFields_eq_foldl (target source : Subnet) (fields : List SubnetField) :
    copyFields target source fields = (copied fields).foldl (fun t f => f.copy t source) target := by
  cases fields <;> rfl

/-- What an update does to a part is decided by the fields that are copied. -/
theorem decided_copyFields (part : SubnetPart) (target source : Subnet) (fields : List SubnetField) :
    part.Decided (copiedPaths fields) target source (copyFields target source fields) := by
  rw [copyFields_eq_foldl]
  exact part.decided_foldl_copy (copied fields) target source

theorem decided_of_resolve {m : FieldMask} (h : resolve (some m) = .ok fields)
    (hm : m.isFullReplace = false) (part : SubnetPart) (target source : Subnet) :
    part.Decided m.paths.eraseDups target source (copyFields target source fields) := by
  have hne : fields ≠ [] := fun hnil => by
    simpa [replacesAll, hm] using (eq_nil_iff_of_resolve h).1 hnil
  have hdecided := decided_copyFields part target source fields
  rwa [copiedPaths, copied, if_neg hne, map_path_of_resolve h hm] at hdecided

/-- After an update, a part that no path of the mask is around or inside is set as it was. Of the
other parts, those that are copied last are set as in the source and those that are changed last are
set. A full replacement takes specification and status over from the source. -/
theorem isSet_apply (h : resolve mask = .ok fields) (target source : Subnet) :
    ∃ updated, apply mask target source = .ok updated ∧
      (∀ m, mask = some m → m.isFullReplace = false → ∀ part : SubnetPart,
        part.Decided m.paths.eraseDups target source updated) ∧
      (replacesAll mask = true → updated.spec = source.spec ∧ updated.status = source.status) := by
  refine ⟨copyFields target source fields, apply_of_resolve h target source, ?_, ?_⟩
  · rintro m rfl hm part
    exact decided_of_resolve h hm part target source
  · intro hfull
    obtain rfl := (eq_nil_iff_of_resolve h).2 hfull
    exact ⟨rfl, rfl⟩

/-- A mask in which the second occurrence of a path would decide if it counted. -/
def repeating : FieldMask :=
  ⟨["spec.v4_prefix.addr", "spec.v4_prefix", "spec.v4_prefix.addr", "status", "status.hw_index"]⟩

theorem isSet_apply_repeating :
    let target : Subnet := { name := "subnets/a" }
    let source : Subnet := { name := "b", spec := some {} }
    let order := ["spec.v4_prefix.addr", "spec.v4_prefix", "status", "status.hw_index"]
    resolve (some repeating) = .ok [.v4PrefixAddr, .v4Prefix, .status, .hwIndex] ∧
      repeating.isFullReplace = false ∧ repeating.paths.eraseDups = order ∧
      ∃ updated, apply (some repeating) target source = .ok updated ∧
        (SubnetPart.spec.ChangedLast order ∧ SubnetPart.spec.isSet updated = true) ∧
        (SubnetPart.v4Prefix.CopiedLast order ∧ SubnetPart.v4Prefix.isSet updated = false) ∧
        (SubnetPart.status.ChangedLast order ∧ SubnetPart.status.isSet updated = true) := by
  intro target source order
  have h : resolve (some repeating) = .ok [.v4PrefixAddr, .v4Prefix, .status, .hwIndex] := rfl
  obtain ⟨updated, hupdated, hparts, -⟩ := isSet_apply h target source
  have horder : repeating.paths.eraseDups = order := by decide
  have hdecided : ∀ part : SubnetPart, part.Decided order target source updated := by
    rw [← horder]
    exact hparts repeating rfl rfl
  have hspec : SubnetPart.spec.ChangedLast order :=
    ⟨[], _, ["spec.v4_prefix", "status", "status.hw_index"], rfl, by decide, by decide⟩
  have hrange : SubnetPart.v4Prefix.CopiedLast order :=
    ⟨["spec.v4_prefix.addr"], _, ["status", "status.hw_index"], rfl, by decide, by decide⟩
  have hstatus : SubnetPart.status.ChangedLast order :=
    ⟨["spec.v4_prefix.addr", "spec.v4_prefix", "status"], _, [], rfl, by decide, by decide⟩
  exact ⟨h, rfl, horder, updated, hupdated,
    ⟨hspec, (hdecided .spec).changed hspec⟩,
    ⟨hrange, (hdecided .v4Prefix).copied hrange⟩,
    ⟨hstatus, (hdecided .status).changed hstatus⟩⟩

end FieldMask
end SubnetRegistry
