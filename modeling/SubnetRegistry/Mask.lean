import SubnetRegistry.Error
import SubnetRegistry.Subnet
import SubnetRegistry.Text.Separated

/-!
# Field masks

A mask lists the fields that an update replaces. No mask, no path and the wildcard alone stand for
the whole of specification and status. The name of a subnet is never replaced.

A path of a part copies the part as it is, set or unset. A path inside a part creates the part in the
target if it is unset there, and reads defaults from it if it is unset in the source.

## Main definitions

* `FieldMask`, `SubnetField` — a list of paths; a field that a path can name.
* `FieldMask.resolve` — the fields that a mask names, none of them for a full replacement.
* `FieldMask.apply` — the update of a subnet.

## Main statements

* `FieldMask.name_copyFields` — the target keeps its name.
-/
namespace SubnetRegistry

structure FieldMask where
  paths : List String
  deriving DecidableEq, Repr

def wildcardPath : String := "*"

/-- The fields of a subnet that an update can replace. -/
inductive SubnetField where
  | spec
  | vpcNameRef
  | v4Prefix
  | v4PrefixAddr
  | v4PrefixLen
  | ipv4VirtualRouterIp
  | virtualRouterMac
  | v4RouteTableNameRef
  | status
  | hwIndex
  | vnicCount
  deriving DecidableEq, Repr

namespace SubnetField

/-- Every field, a part before what is in it. -/
def all : List SubnetField :=
  [.spec, .vpcNameRef, .v4Prefix, .v4PrefixAddr, .v4PrefixLen, .ipv4VirtualRouterIp,
    .virtualRouterMac, .v4RouteTableNameRef, .status, .hwIndex, .vnicCount]

def path : SubnetField → String
  | .spec => "spec"
  | .vpcNameRef => "spec.vpc_name_ref"
  | .v4Prefix => "spec.v4_prefix"
  | .v4PrefixAddr => "spec.v4_prefix.addr"
  | .v4PrefixLen => "spec.v4_prefix.len"
  | .ipv4VirtualRouterIp => "spec.ipv4_virtual_router_ip"
  | .virtualRouterMac => "spec.virtual_router_mac"
  | .v4RouteTableNameRef => "spec.v4_route_table_name_ref"
  | .status => "status"
  | .hwIndex => "status.hw_index"
  | .vnicCount => "status.vnic_count"

def ofPath (path : String) : Except FieldMaskError SubnetField :=
  match all.find? fun f => f.path == path with
  | some f => .ok f
  | none => .error (.unknownPath path)

theorem ofPath_path (f : SubnetField) : ofPath f.path = .ok f := by
  cases f <;> rfl

end SubnetField

namespace Subnet

/-- The specification as it is read, with defaults if it is unset. -/
def specOrDefault (s : Subnet) : SubnetSpec := s.spec.getD {}

def statusOrDefault (s : Subnet) : SubnetStatus := s.status.getD {}

/-- A change of the specification, which is created if it is unset. -/
def changeSpec (s : Subnet) (f : SubnetSpec → SubnetSpec) : Subnet :=
  { s with spec := some (f s.specOrDefault) }

def changeStatus (s : Subnet) (f : SubnetStatus → SubnetStatus) : Subnet :=
  { s with status := some (f s.statusOrDefault) }

end Subnet

def SubnetSpec.prefixOrDefault (s : SubnetSpec) : Ipv4Prefix := s.v4Prefix.getD {}

/-- The target with one field copied from the source. -/
def SubnetField.copy (target source : Subnet) : SubnetField → Subnet
  | .spec => { target with spec := source.spec }
  | .vpcNameRef => target.changeSpec fun t => { t with vpcNameRef := source.specOrDefault.vpcNameRef }
  | .v4Prefix => target.changeSpec fun t => { t with v4Prefix := source.specOrDefault.v4Prefix }
  | .v4PrefixAddr => target.changeSpec fun t =>
    { t with
      v4Prefix := some { t.prefixOrDefault with addr := source.specOrDefault.prefixOrDefault.addr } }
  | .v4PrefixLen => target.changeSpec fun t =>
    { t with
      v4Prefix := some { t.prefixOrDefault with len := source.specOrDefault.prefixOrDefault.len } }
  | .ipv4VirtualRouterIp => target.changeSpec fun t =>
    { t with ipv4VirtualRouterIp := source.specOrDefault.ipv4VirtualRouterIp }
  | .virtualRouterMac => target.changeSpec fun t =>
    { t with virtualRouterMac := source.specOrDefault.virtualRouterMac }
  | .v4RouteTableNameRef => target.changeSpec fun t =>
    { t with v4RouteTableNameRef := source.specOrDefault.v4RouteTableNameRef }
  | .status => { target with status := source.status }
  | .hwIndex => target.changeStatus fun t => { t with hwIndex := source.statusOrDefault.hwIndex }
  | .vnicCount => target.changeStatus fun t => { t with vnicCount := source.statusOrDefault.vnicCount }

@[simp] theorem SubnetField.name_copy (target source : Subnet) (f : SubnetField) :
    (f.copy target source).name = target.name := by
  cases f <;> rfl

namespace FieldMask

def wildcard : FieldMask := ⟨[wildcardPath]⟩

def isEmpty (m : FieldMask) : Bool := m.paths.isEmpty

/-- Whether a mask stands for everything. -/
def isFullReplace (m : FieldMask) : Bool := m.paths.isEmpty || m.paths == [wildcardPath]

/-- The fields of the paths, each at its first occurrence and not if it is among `seen`. -/
def fieldsOf (seen : List SubnetField) : List String → Except FieldMaskError (List SubnetField)
  | [] => .ok []
  | path :: rest => do
    let f ← SubnetField.ofPath path
    if f ∈ seen then fieldsOf seen rest
    else return f :: (← fieldsOf (f :: seen) rest)

/-- The fields that a mask names; none stands for all. -/
def resolve : Option FieldMask → Except FieldMaskError (List SubnetField)
  | none => .ok []
  | some m =>
    if 1 < m.paths.length && m.paths.contains wildcardPath then .error .wildcardWithOtherPaths
    else if m.isFullReplace then .ok []
    else fieldsOf [] m.paths

/-- The target with the given fields of the source; none stands for all. -/
def copyFields (target source : Subnet) : List SubnetField → Subnet
  | [] => { target with spec := source.spec, status := source.status }
  | fields => fields.foldl (fun t f => f.copy t source) target

/-- The target updated from the source by a mask. -/
def apply (mask : Option FieldMask) (target source : Subnet) : Except SubnetError Subnet :=
  match resolve mask with
  | .ok fields => .ok (copyFields target source fields)
  | .error reason => .error (.invalidFieldMask reason)

@[simp] theorem name_copyFields (target source : Subnet) (fields : List SubnetField) :
    (copyFields target source fields).name = target.name := by
  have hfold : ∀ fields : List SubnetField,
      (fields.foldl (fun t f => f.copy t source) target).name = target.name := by
    intro fields
    induction fields generalizing target with
    | nil => rfl
    | cons f fields ih => exact (ih _).trans (f.name_copy target source)
  cases fields with
  | nil => rfl
  | cons f fields => exact hfold (f :: fields)

theorem apply_of_resolve {mask : Option FieldMask} {fields : List SubnetField}
    (h : resolve mask = .ok fields) (target source : Subnet) :
    apply mask target source = .ok (copyFields target source fields) := by
  rw [apply, h]

theorem apply_of_refused {mask : Option FieldMask} {reason : FieldMaskError}
    (h : resolve mask = .error reason) (target source : Subnet) :
    apply mask target source = .error (.invalidFieldMask reason) := by
  rw [apply, h]

theorem apply_eq_ok_iff {mask : Option FieldMask} {target source updated : Subnet} :
    apply mask target source = .ok updated ↔
      ∃ fields, resolve mask = .ok fields ∧ copyFields target source fields = updated := by
  unfold apply
  cases resolve mask <;> simp

def joined (m : FieldMask) : String :=
  String.ofList (Text.join ',' (m.paths.map String.toList))

/-- The mask of a text of paths with commas between them. The empty text has no path. -/
def ofJoined (text : String) : FieldMask :=
  if text = "" then ⟨[]⟩ else ⟨(Text.split ',' text.toList).map String.ofList⟩

end FieldMask
end SubnetRegistry
