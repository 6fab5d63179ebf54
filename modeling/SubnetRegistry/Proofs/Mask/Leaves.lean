import SubnetRegistry.Mask
import SubnetRegistry.Proofs.Except

/-!
# Updates leaf by leaf

The leaves of a subnet are its fields that have no fields of their own. They can be read whether the
parts they are in are set or not. A path covers the leaves at and below it. After an update, the leaves
that the mask covers read as in the source, and the others as before.

## Main definitions

* `SubnetLeaf`, `SubnetLeaf.read` — the leaves, and what they read.
* `FieldMask.Covers` — the leaves of a mask, told from its paths.

## Main statements

* `SubnetLeaf.read_copy` — what copying one field does to a leaf.
* `FieldMask.mem_fieldsOf_iff` — the fields that a mask names are those of its paths.
* `FieldMask.read_apply` — what an update does to every leaf.
-/
namespace SubnetRegistry

/-- The fields of a subnet that have no fields of their own. -/
inductive SubnetLeaf where
  | vpcNameRef
  | v4PrefixAddr
  | v4PrefixLen
  | ipv4VirtualRouterIp
  | virtualRouterMac
  | v4RouteTableNameRef
  | hwIndex
  | vnicCount
  deriving DecidableEq, Repr

namespace SubnetLeaf

def path : SubnetLeaf → String
  | .vpcNameRef => "spec.vpc_name_ref"
  | .v4PrefixAddr => "spec.v4_prefix.addr"
  | .v4PrefixLen => "spec.v4_prefix.len"
  | .ipv4VirtualRouterIp => "spec.ipv4_virtual_router_ip"
  | .virtualRouterMac => "spec.virtual_router_mac"
  | .v4RouteTableNameRef => "spec.v4_route_table_name_ref"
  | .hwIndex => "status.hw_index"
  | .vnicCount => "status.vnic_count"

abbrev Value : SubnetLeaf → Type
  | .vpcNameRef | .v4RouteTableNameRef => String
  | .v4PrefixAddr | .ipv4VirtualRouterIp => UInt32
  | .v4PrefixLen | .hwIndex | .vnicCount => Int32
  | .virtualRouterMac => List UInt8

/-- What a subnet reads at a leaf, with defaults where a part is unset. -/
def read (s : Subnet) : (leaf : SubnetLeaf) → leaf.Value
  | .vpcNameRef => (s.spec.getD {}).vpcNameRef
  | .v4PrefixAddr => ((s.spec.getD {}).v4Prefix.getD {}).addr
  | .v4PrefixLen => ((s.spec.getD {}).v4Prefix.getD {}).len
  | .ipv4VirtualRouterIp => (s.spec.getD {}).ipv4VirtualRouterIp
  | .virtualRouterMac => (s.spec.getD {}).virtualRouterMac
  | .v4RouteTableNameRef => (s.spec.getD {}).v4RouteTableNameRef
  | .hwIndex => (s.status.getD {}).hwIndex
  | .vnicCount => (s.status.getD {}).vnicCount

end SubnetLeaf

def pathNames (path : String) : List (List Char) := Text.split '.' path.toList

/-- A path is another one or leads to something around it. -/
def Reaches (path other : String) : Prop := pathNames path <+: pathNames other

instance (path other : String) : Decidable (Reaches path other) :=
  inferInstanceAs (Decidable (pathNames path <+: pathNames other))

/-- Copying a field copies the leaves that its path leads to, and no others. -/
theorem SubnetLeaf.read_copy (leaf : SubnetLeaf) (f : SubnetField) (target source : Subnet) :
    leaf.read (f.copy target source) =
      if Reaches f.path leaf.path then leaf.read source else leaf.read target := by
  cases f <;> cases leaf <;> rfl

theorem SubnetField.path_of_ofPath {path : String} {f : SubnetField} (h : ofPath path = .ok f) :
    f.path = path := by
  unfold ofPath at h
  split at h
  · next g hg =>
    cases h
    simpa using List.find?_some hg
  · cases h

theorem SubnetField.path_inj {f g : SubnetField} (h : f.path = g.path) : f = g := by
  have hg := ofPath_path g
  rw [← h, ofPath_path] at hg
  exact Except.ok.inj hg

namespace FieldMask

variable {mask : Option FieldMask} {fields : List SubnetField} {leaf : SubnetLeaf}

/-! ## The fields that a mask names -/

/-- Each path names a field, and the fields are those of the paths, without those that were seen. -/
theorem mem_fieldsOf_iff {seen : List SubnetField} {paths : List String}
    (h : fieldsOf seen paths = .ok fields) :
    (∀ p ∈ paths, ∃ f : SubnetField, f.path = p) ∧
      ∀ f, f ∈ fields ↔ f ∉ seen ∧ f.path ∈ paths := by
  induction paths generalizing seen fields with
  | nil =>
    cases h
    simp
  | cons p rest ih =>
    obtain ⟨g, hg, hrest⟩ := exists_of_bind_eq_ok h
    obtain rfl := SubnetField.path_of_ofPath hg
    have hpath : ∀ f : SubnetField, f.path ∈ g.path :: rest ↔ f = g ∨ f.path ∈ rest := fun f => by
      rw [List.mem_cons]
      exact or_congr_left ⟨SubnetField.path_inj, congrArg _⟩
    by_cases hseen : g ∈ seen
    · rw [if_pos hseen] at hrest
      obtain ⟨hnamed, hmem⟩ := ih hrest
      refine ⟨List.forall_mem_cons.2 ⟨⟨g, rfl⟩, hnamed⟩, fun f => ?_⟩
      grind
    · rw [if_neg hseen] at hrest
      obtain ⟨others, hothers, hcons⟩ := exists_of_bind_eq_ok hrest
      cases hcons
      obtain ⟨hnamed, hmem⟩ := ih hothers
      refine ⟨List.forall_mem_cons.2 ⟨⟨g, rfl⟩, hnamed⟩, fun f => ?_⟩
      grind

/-- A mask that names no field stands for all of them. -/
theorem resolve_cases (h : resolve mask = .ok fields) :
    (fields = [] ∧ ∀ m, mask = some m → m.paths = [] ∨ m.paths = [wildcardPath]) ∨
      ∃ m, mask = some m ∧ m.paths ≠ [] ∧ wildcardPath ∉ m.paths ∧
        fieldsOf [] m.paths = .ok fields := by
  cases mask with
  | none =>
    cases h
    exact .inl ⟨rfl, nofun⟩
  | some m =>
    rw [resolve] at h
    by_cases hother : (1 < m.paths.length && m.paths.contains wildcardPath) = true
    · rw [if_pos hother] at h
      cases h
    · rw [if_neg hother] at h
      by_cases hfull : m.isFullReplace = true
      · rw [if_pos hfull] at h
        cases h
        refine .inl ⟨rfl, ?_⟩
        rintro _ ⟨⟩
        simpa [isFullReplace] using hfull
      · rw [if_neg hfull] at h
        simp only [isFullReplace, Bool.or_eq_true, List.isEmpty_iff, beq_iff_eq, not_or] at hfull
        refine .inr ⟨m, rfl, hfull.1, fun hstar => ?_, h⟩
        have hone : ¬ 1 < m.paths.length := fun hlt => hother (by simp [hlt, hstar])
        match hp : m.paths, hfull.1 with
        | [p], _ => simp_all
        | _ :: _ :: _, _ => simp [hp] at hone

/-! ## Covered leaves -/

/-- No mask, a mask without paths and the wildcard alone cover all leaves, other masks those that a
path leads to. -/
def Covers : Option FieldMask → SubnetLeaf → Prop
  | none, _ => True
  | some m, leaf =>
    m.paths = [] ∨ m.paths = [wildcardPath] ∨ ∃ p ∈ m.paths, Reaches p leaf.path

instance (mask : Option FieldMask) (leaf : SubnetLeaf) : Decidable (Covers mask leaf) :=
  match mask with
  | none => .isTrue trivial
  | some m => inferInstanceAs (Decidable (m.paths = [] ∨ m.paths = [wildcardPath] ∨
      ∃ p ∈ m.paths, Reaches p leaf.path))

/-- The leaves that a mask covers are those that its fields lead to. -/
theorem covers_iff (h : resolve mask = .ok fields) :
    Covers mask leaf ↔ fields = [] ∨ ∃ f ∈ fields, Reaches f.path leaf.path := by
  obtain ⟨rfl, hfull⟩ | ⟨m, rfl, hne, hstar, hfields⟩ := resolve_cases h
  · refine iff_of_true ?_ (.inl rfl)
    cases mask with
    | none => trivial
    | some m => exact (hfull m rfl).imp_right .inl
  · obtain ⟨hnamed, hmem⟩ := mem_fieldsOf_iff hfields
    have hin : ∀ f, f ∈ fields ↔ f.path ∈ m.paths := by simpa using hmem
    have hsome : fields ≠ [] := by
      obtain ⟨p, hp⟩ := List.exists_mem_of_ne_nil _ hne
      obtain ⟨f, rfl⟩ := hnamed p hp
      exact List.ne_nil_of_mem ((hin f).2 hp)
    have hlone : m.paths ≠ [wildcardPath] := fun hp => hstar (by simp [hp])
    rw [Covers, or_iff_right hne, or_iff_right hlone, or_iff_right hsome]
    constructor
    · rintro ⟨p, hp, hreach⟩
      obtain ⟨f, rfl⟩ := hnamed p hp
      exact ⟨f, (hin f).2 hp, hreach⟩
    · rintro ⟨f, hf, hreach⟩
      exact ⟨f.path, (hin f).1 hf, hreach⟩

/-- Which leaves an accepted mask covers does not depend on the order of its paths, nor on how often
each stands in it. -/
theorem covers_congr {m m' : FieldMask} {fields' : List SubnetField}
    (h : resolve (some m) = .ok fields) (h' : resolve (some m') = .ok fields')
    (hpaths : ∀ p, p ∈ m.paths ↔ p ∈ m'.paths) : Covers (some m) leaf ↔ Covers (some m') leaf := by
  have hmem : ∀ {n : FieldMask} {fs : List SubnetField}, resolve (some n) = .ok fs →
      (Covers (some n) leaf ↔ (∀ p, p ∉ n.paths) ∨ wildcardPath ∈ n.paths ∨
        ∃ p ∈ n.paths, Reaches p leaf.path) := by
    intro n fs hn
    rw [Covers, List.eq_nil_iff_forall_not_mem]
    refine or_congr_right (or_congr_left ⟨fun hp => by simp [hp], fun hstar => ?_⟩)
    obtain ⟨-, hfull⟩ | ⟨_, ⟨⟩, -, hnot, -⟩ := resolve_cases hn
    · exact (hfull n rfl).resolve_left (List.ne_nil_of_mem hstar)
    · exact absurd hstar hnot
  rw [hmem h, hmem h']
  simp only [hpaths]

/-! ## Updates -/

theorem read_foldl_copy (target source : Subnet) (fields : List SubnetField) :
    leaf.read (fields.foldl (fun t f => f.copy t source) target) =
      if ∃ f ∈ fields, Reaches f.path leaf.path then leaf.read source else leaf.read target := by
  induction fields generalizing target with
  | nil => simp
  | cons f fields ih =>
    rw [List.foldl_cons, ih, leaf.read_copy]
    by_cases hf : Reaches f.path leaf.path <;>
      by_cases hrest : ∃ g ∈ fields, Reaches g.path leaf.path <;>
      simp [hf, hrest]

/-- Copying fields copies the leaves that they lead to; no fields stand for all. -/
theorem read_copyFields (target source : Subnet) (fields : List SubnetField) :
    leaf.read (copyFields target source fields) =
      if fields = [] ∨ ∃ f ∈ fields, Reaches f.path leaf.path then leaf.read source
      else leaf.read target := by
  cases fields with
  | nil => cases leaf <;> rfl
  | cons f fields =>
    have hfold : leaf.read (copyFields target source (f :: fields)) = _ :=
      read_foldl_copy target source (f :: fields)
    simp [hfold]

theorem read_copyFields_of_covers (h : resolve mask = .ok fields) (target source : Subnet)
    (hleaf : Covers mask leaf) : leaf.read (copyFields target source fields) = leaf.read source := by
  rw [read_copyFields, if_pos ((covers_iff h).1 hleaf)]

theorem read_copyFields_of_not_covers (h : resolve mask = .ok fields) (target source : Subnet)
    (hleaf : ¬ Covers mask leaf) :
    leaf.read (copyFields target source fields) = leaf.read target := by
  rw [read_copyFields, if_neg fun hf => hleaf ((covers_iff h).2 hf)]

/-- After an update, the leaves that the mask covers read as in the source and the others as before,
and the name is as before. The order of the paths makes no difference, nor does a path that stands
there twice. -/
theorem read_apply (h : resolve mask = .ok fields) (target source : Subnet) :
    ∃ updated, apply mask target source = .ok updated ∧
      (∀ leaf, Covers mask leaf → SubnetLeaf.read updated leaf = SubnetLeaf.read source leaf) ∧
      (∀ leaf, ¬ Covers mask leaf → SubnetLeaf.read updated leaf = SubnetLeaf.read target leaf) ∧
      updated.name = target.name ∧
      ∀ m m' other, mask = some m → (∀ p, p ∈ m.paths ↔ p ∈ m'.paths) →
        apply (some m') target source = .ok other →
        ∀ leaf, SubnetLeaf.read other leaf = SubnetLeaf.read updated leaf := by
  refine ⟨copyFields target source fields, apply_eq_ok_iff.2 ⟨fields, h, rfl⟩,
    fun leaf => read_copyFields_of_covers h target source,
    fun leaf => read_copyFields_of_not_covers h target source, name_copyFields target source fields, ?_⟩
  rintro m m' other rfl hpaths hother leaf
  obtain ⟨fields', h', rfl⟩ := apply_eq_ok_iff.1 hother
  by_cases hleaf : Covers (some m) leaf
  · have hleaf' := (covers_congr h h' hpaths).1 hleaf
    rw [read_copyFields_of_covers h _ _ hleaf, read_copyFields_of_covers h' _ _ hleaf']
  · have hleaf' := fun hc => hleaf ((covers_congr h h' hpaths).2 hc)
    rw [read_copyFields_of_not_covers h _ _ hleaf, read_copyFields_of_not_covers h' _ _ hleaf']

/-- A mask with a path twice and a part after what is in it. -/
def overlapping : FieldMask :=
  ⟨["status.hw_index", "spec.v4_prefix.addr", "spec.v4_prefix", "status.hw_index"]⟩

theorem read_apply_overlapping :
    let target : Subnet := { name := "subnets/a", status := some ⟨1, 2⟩ }
    let source : Subnet := { name := "b", spec := some { vpcNameRef := "v", v4Prefix := some ⟨7, 8⟩ } }
    resolve (some overlapping) = .ok [.hwIndex, .v4PrefixAddr, .v4Prefix] ∧
      ∃ updated, apply (some overlapping) target source = .ok updated ∧
        (Covers (some overlapping) .v4PrefixLen ∧
          SubnetLeaf.read updated .v4PrefixLen = SubnetLeaf.read source .v4PrefixLen) ∧
        (¬ Covers (some overlapping) .vnicCount ∧
          SubnetLeaf.read updated .vnicCount = SubnetLeaf.read target .vnicCount) ∧
        updated.name = "subnets/a" ∧
        ∀ leaf, SubnetLeaf.read (copyFields target source [.v4Prefix, .v4PrefixAddr, .hwIndex]) leaf =
          SubnetLeaf.read updated leaf := by
  intro target source
  have h : resolve (some overlapping) = .ok [.hwIndex, .v4PrefixAddr, .v4Prefix] := rfl
  have hlen : Covers (some overlapping) .v4PrefixLen :=
    .inr (.inr ⟨"spec.v4_prefix", by decide, by decide⟩)
  have hcount : ¬ Covers (some overlapping) .vnicCount := by decide
  obtain ⟨updated, hupdated, hcovered, hothers, hname, horder⟩ := read_apply h target source
  refine ⟨h, updated, hupdated, ⟨hlen, hcovered _ hlen⟩, ⟨hcount, hothers _ hcount⟩, hname, ?_⟩
  exact horder overlapping ⟨["spec.v4_prefix", "spec.v4_prefix.addr", "status.hw_index"]⟩ _ rfl
    (by simp [overlapping, or_comm, or_left_comm]) rfl

end FieldMask
end SubnetRegistry
