import Mathlib.Data.List.Nodup
import SubnetRegistry.Proofs.Mask.Equivalence

/-!
# What a mask names

A mask is refused for a wildcard that is not alone, and else for its first path that is of no field.
Any other mask names the fields of its paths, each where its path first occurs. It names none only if
it stands for all of them. So the target of an update is not touched before the mask is known to be
good, even if the update is made in place.

## Main definitions

* `fieldPaths` — the paths of the fields.
* `FieldMask.Names` — the fields that a list of paths names.
* `FieldMask.updateInPlace` — the update of a target in place, field by field.

## Main statements

* `FieldMask.fieldsOf_eq_error_iff` — a list of paths is refused for the first one that is of no field.
* `FieldMask.resolve_eq_wildcard_iff`, `FieldMask.resolve_eq_unknown_iff`,
  `FieldMask.resolve_eq_ok_iff` — what a mask is refused for, and what it names.
* `FieldMask.run_updateInPlace` — an update in place makes the update, or leaves the target as it is.
-/
namespace SubnetRegistry

def fieldPaths : List String :=
  ["spec", "spec.vpc_name_ref", "spec.v4_prefix", "spec.v4_prefix.addr", "spec.v4_prefix.len",
    "spec.ipv4_virtual_router_ip", "spec.virtual_router_mac", "spec.v4_route_table_name_ref",
    "status", "status.hw_index", "status.vnic_count"]

theorem SubnetField.map_path_all : all.map path = fieldPaths := rfl

theorem SubnetField.mem_all (f : SubnetField) : f ∈ all := by
  cases f <;> decide

theorem mem_fieldPaths_iff {p : String} : p ∈ fieldPaths ↔ ∃ f : SubnetField, f.path = p := by
  rw [← SubnetField.map_path_all, List.mem_map]
  exact exists_congr fun f => and_iff_right f.mem_all

theorem wildcardPath_not_mem_fieldPaths : wildcardPath ∉ fieldPaths := by decide

theorem SubnetField.ofPath_eq_error {p : String} (h : p ∉ fieldPaths) :
    ofPath p = .error (.unknownPath p) := by
  unfold ofPath
  split
  · next f hf =>
    have hpath : f.path = p := by simpa using List.find?_some hf
    exact absurd (mem_fieldPaths_iff.2 ⟨f, hpath⟩) h
  · rfl

namespace FieldMask

variable {paths : List String} {seen fields : List SubnetField} {p : String} {e : FieldMaskError}

/-! ## Paths and fields -/

/-- A list of paths is refused for the first one that is of no field, whatever was seen before. -/
theorem fieldsOf_eq_error_iff :
    fieldsOf seen paths = .error e ↔
      ∃ p, paths.find? (fun q => q ∉ fieldPaths) = some p ∧ e = .unknownPath p := by
  -- a path of a field is remembered, so the claim on the rest is about more that was seen
  induction paths generalizing seen with
  | nil => simp [fieldsOf]
  | cons p rest ih =>
    by_cases hp : p ∈ fieldPaths
    · obtain ⟨f, rfl⟩ := mem_fieldPaths_iff.1 hp
      rw [fieldsOf, bind_of_eq_ok (SubnetField.ofPath_path f), List.find?_cons_of_neg (by simpa)]
      split
      · exact ih
      · rw [← @ih (f :: seen)]
        cases fieldsOf (f :: seen) rest with
        | ok others => exact iff_of_false (fun h => by cases h) (fun h => by cases h)
        | error e' => exact Iff.rfl
    · rw [fieldsOf, SubnetField.ofPath_eq_error hp, List.find?_cons_of_pos (by simpa)]
      simp only [Option.some.injEq, exists_eq_left']
      exact ⟨fun h => (Except.error.inj h).symm, fun h => congrArg _ h.symm⟩

/-- The fields that a list of paths names. -/
structure Names (paths : List String) (fields : List SubnetField) : Prop where
  /-- Each field stands where its path first occurs. -/
  in_order : fields.map SubnetField.path = paths.eraseDups
  /-- No field is there twice. -/
  nodup : fields.Nodup
  /-- The paths are those of the fields. -/
  named : ∀ p, p ∈ paths ↔ ∃ f ∈ fields, f.path = p
  /-- There is a field. -/
  ne_nil : fields ≠ []

theorem nodup_fieldsOf (h : fieldsOf seen paths = .ok fields) : fields.Nodup := by
  induction paths generalizing seen fields with
  | nil =>
    cases h
    exact List.nodup_nil
  | cons p rest ih =>
    obtain ⟨f, -, hrest⟩ := exists_of_bind_eq_ok h
    by_cases hseen : f ∈ seen
    · rw [if_pos hseen] at hrest
      exact ih hrest
    · rw [if_neg hseen] at hrest
      obtain ⟨others, hothers, hcons⟩ := exists_of_bind_eq_ok hrest
      cases hcons
      have hnew : f ∉ others := fun hf => (((mem_fieldsOf_iff hothers).2 f).1 hf).1 (by simp)
      exact List.nodup_cons.2 ⟨hnew, ih hothers⟩

theorem names_of_fieldsOf (hne : paths ≠ []) (h : fieldsOf [] paths = .ok fields) :
    Names paths fields := by
  obtain ⟨hnamed, hmem⟩ := mem_fieldsOf_iff h
  have hpaths : ∀ p, p ∈ paths ↔ ∃ f ∈ fields, f.path = p := by
    intro p
    constructor
    · intro hp
      obtain ⟨f, rfl⟩ := hnamed p hp
      exact ⟨f, (hmem f).2 ⟨List.not_mem_nil, hp⟩, rfl⟩
    · rintro ⟨f, hf, rfl⟩
      exact ((hmem f).1 hf).2
  refine ⟨by simpa using map_path_fieldsOf h, nodup_fieldsOf h, hpaths, ?_⟩
  obtain ⟨p, hp⟩ := List.exists_mem_of_ne_nil _ hne
  obtain ⟨f, hf, -⟩ := (hpaths p).1 hp
  exact List.ne_nil_of_mem hf

/-- The fields that a list of paths names are found. -/
theorem Names.fieldsOf_eq (h : Names paths fields) : fieldsOf [] paths = .ok fields := by
  have hknown : ∀ p ∈ paths, ∃ f : SubnetField, f.path = p := fun p hp =>
    (h.named p).1 hp |>.imp fun _ hf => hf.2
  obtain ⟨found, hfound⟩ := exists_fieldsOf hknown []
  have hpaths : found.map SubnetField.path = fields.map SubnetField.path := by
    rw [h.in_order, map_path_fieldsOf hfound]
    simp
  rw [hfound, List.map_injective_iff.2 (fun _ _ => SubnetField.path_inj) hpaths]

theorem Names.not_mem_wildcard (h : Names paths fields) : wildcardPath ∉ paths := fun hp =>
  wildcardPath_not_mem_fieldPaths
    (mem_fieldPaths_iff.2 (((h.named wildcardPath).1 hp).imp fun _ hf => hf.2))

/-! ## Masks -/

/-- The three checks of a mask, in their order. -/
theorem resolve_some (paths : List String) :
    resolve (some ⟨paths⟩) =
      if 1 < paths.length ∧ wildcardPath ∈ paths then .error .wildcardWithOtherPaths
      else if paths = [] ∨ paths = [wildcardPath] then .ok []
      else fieldsOf [] paths := by
  simp [resolve, isFullReplace]

/-- A mask is refused for its wildcard exactly if there are other paths. -/
theorem resolve_eq_wildcard_iff :
    resolve (some ⟨paths⟩) = .error .wildcardWithOtherPaths ↔
      1 < paths.length ∧ wildcardPath ∈ paths := by
  rw [resolve_some]
  split_ifs with hother hfull
  · exact iff_of_true rfl hother
  · exact iff_of_false nofun hother
  · refine iff_of_false (fun h => ?_) hother
    obtain ⟨p, -, ⟨⟩⟩ := fieldsOf_eq_error_iff.1 h

/-- A mask is refused for its first path that is of no field, unless it is the wildcard alone. -/
theorem resolve_eq_unknown_iff :
    resolve (some ⟨paths⟩) = .error (.unknownPath p) ↔
      ¬ (1 < paths.length ∧ wildcardPath ∈ paths) ∧ paths ≠ [wildcardPath] ∧
        paths.find? (fun q => q ∉ fieldPaths) = some p := by
  rw [resolve_some]
  split_ifs with hother hfull
  · exact iff_of_false nofun fun h => h.1 hother
  · refine iff_of_false nofun fun h => ?_
    rcases hfull with rfl | hlone
    · cases h.2.2
    · exact h.2.1 hlone
  · have hlone : paths ≠ [wildcardPath] := fun hp => hfull (.inr hp)
    rw [fieldsOf_eq_error_iff]
    simp [hother, hlone]

/-- Any other mask names the fields of its paths, or all of them. -/
theorem resolve_eq_ok_iff :
    resolve (some ⟨paths⟩) = .ok fields ↔
      fields = [] ∧ (paths = [] ∨ paths = [wildcardPath]) ∨ Names paths fields := by
  rw [resolve_some]
  split_ifs with hother hfull
  · refine iff_of_false nofun ?_
    rintro (⟨-, rfl | rfl⟩ | hnames)
    · simp at hother
    · simp at hother
    · exact hnames.not_mem_wildcard hother.2
  · refine ⟨fun h => .inl ⟨(Except.ok.inj h).symm, hfull⟩, ?_⟩
    rintro (⟨rfl, -⟩ | hnames)
    · rfl
    · rcases hfull with rfl | rfl
      · cases hnames.fieldsOf_eq
        exact absurd rfl hnames.ne_nil
      · exact absurd (List.mem_singleton_self _) hnames.not_mem_wildcard
  · refine ⟨fun h => .inr (names_of_fieldsOf (fun hnil => hfull (.inl hnil)) h), ?_⟩
    rintro (⟨-, hpaths⟩ | hnames)
    · exact absurd hpaths hfull
    · exact hnames.fieldsOf_eq

/-! ## Updates in place -/

/-- The update of a target in place: the mask is checked, then field by field is copied. -/
def updateInPlace (mask : Option FieldMask) (source : Subnet) : EStateM SubnetError Subnet Unit := do
  let fields ← MonadExcept.ofExcept ((resolve mask).mapError SubnetError.invalidFieldMask)
  (copied fields).forM fun f => modify fun target => f.copy target source

theorem run_forM_copy (source : Subnet) (fields : List SubnetField) (target : Subnet) :
    (fields.forM fun f => modify fun target => f.copy target source :
      EStateM SubnetError Subnet Unit).run target =
      .ok () (fields.foldl (fun t f => f.copy t source) target) := by
  induction fields generalizing target with
  | nil => rfl
  | cons f fields ih => exact ih (f.copy target source)

/-- An update in place makes the update. If it fails, the target is as it was. -/
theorem run_updateInPlace (mask : Option FieldMask) (source target : Subnet) :
    (updateInPlace mask source).run target =
      match apply mask target source with
      | .ok updated => .ok () updated
      | .error e => .error e target := by
  unfold updateInPlace
  cases h : resolve mask with
  | error reason =>
    rw [apply_of_refused h]
    rfl
  | ok fields =>
    rw [apply_of_resolve h, copyFields_eq_foldl]
    exact run_forM_copy source (copied fields) target

variable {mask : Option FieldMask} {source target : Subnet}

/-- An update fails exactly if its mask is refused. -/
theorem apply_eq_error_iff {e : SubnetError} :
    apply mask target source = .error e ↔
      ∃ reason, resolve mask = .error reason ∧ e = .invalidFieldMask reason := by
  unfold apply
  cases resolve mask with
  | ok fields => exact iff_of_false nofun (by simp)
  | error reason => simp [eq_comm]

theorem run_updateInPlace_eq_ok_iff {updated : Subnet} :
    (updateInPlace mask source).run target = .ok () updated ↔
      apply mask target source = .ok updated := by
  rw [run_updateInPlace]
  cases apply mask target source <;> simp

theorem run_updateInPlace_eq_error_iff {e : SubnetError} {after : Subnet} :
    (updateInPlace mask source).run target = .error e after ↔
      after = target ∧ apply mask target source = .error e := by
  rw [run_updateInPlace]
  cases apply mask target source with
  | ok updated => simp
  | error e' => simp [and_comm, eq_comm]

end FieldMask
end SubnetRegistry
