import SubnetRegistry.Json.Record
import SubnetRegistry.Json.Value
import SubnetRegistry.Subnet

/-!
# Subnets as JSON

How a subnet and its parts are written and read. Writing leaves out an unset specification and an
unset status but writes an unset address range as null; reading accepts null for each of the three,
and defaults for every field that is absent.
-/
namespace SubnetRegistry

open Json (Node Origin Shape Fault Expectation)

/-- The optional member of an object: absent if there is no value. -/
def Json.optionalMember (name : String) : Option Json.Value → List (String × Json.Value)
  | none => []
  | some v => [(name, v)]

def Json.Node.asUInt32 (node : Node) : Except Fault UInt32 :=
  (fun n => UInt32.ofNat n.toNat) <$> node.asInteger .u32

def Json.Node.asInt32 (node : Node) : Except Fault Int32 :=
  Int32.ofInt <$> node.asInteger .i32

def Json.Node.asByte (node : Node) : Except Fault UInt8 :=
  (fun n => UInt8.ofNat n.toNat) <$> node.asInteger .u8

/-! ## Address ranges -/

namespace Ipv4Prefix

inductive Field where
  | addr
  | len
  deriving DecidableEq

abbrev Field.Value : Field → Type
  | .addr => UInt32
  | .len => Int32

def shape : Shape Field Field.Value where
  title := "struct Ipv4Prefix"
  fields := [.addr, .len]
  name
    | .addr => "addr"
    | .len => "len"
  read
    | .addr, _, node => node.asUInt32
    | .len, _, node => node.asInt32
  fallback
    | .addr => some 0
    | .len => some 0

def ofNode (o : Origin) (node : Node) : Except Fault Ipv4Prefix := do
  let get ← shape.read? o node
  return { addr := ← get .addr, len := ← get .len }

def toJson (p : Ipv4Prefix) : Json.Value :=
  .object [("addr", .integer p.addr.toNat), ("len", .integer p.len.toInt)]

end Ipv4Prefix

/-! ## Specifications -/

namespace SubnetSpec

inductive Field where
  | vpcNameRef
  | v4Prefix
  | ipv4VirtualRouterIp
  | virtualRouterMac
  | v4RouteTableNameRef
  deriving DecidableEq

abbrev Field.Value : Field → Type
  | .vpcNameRef => String
  | .v4Prefix => Option Ipv4Prefix
  | .ipv4VirtualRouterIp => UInt32
  | .virtualRouterMac => List UInt8
  | .v4RouteTableNameRef => String

def shape : Shape Field Field.Value where
  title := "struct SubnetSpec"
  fields := [.vpcNameRef, .v4Prefix, .ipv4VirtualRouterIp, .virtualRouterMac, .v4RouteTableNameRef]
  name
    | .vpcNameRef => "vpc_name_ref"
    | .v4Prefix => "v4_prefix"
    | .ipv4VirtualRouterIp => "ipv4_virtual_router_ip"
    | .virtualRouterMac => "virtual_router_mac"
    | .v4RouteTableNameRef => "v4_route_table_name_ref"
  read
    | .vpcNameRef, _, node => node.asText
    | .v4Prefix, o, node => node.asOption (Ipv4Prefix.ofNode o)
    | .ipv4VirtualRouterIp, _, node => node.asUInt32
    | .virtualRouterMac, _, node => node.asList Node.asByte
    | .v4RouteTableNameRef, _, node => node.asText
  fallback
    | .vpcNameRef => some ""
    | .v4Prefix => some none
    | .ipv4VirtualRouterIp => some 0
    | .virtualRouterMac => some []
    | .v4RouteTableNameRef => some ""

def ofNode (o : Origin) (node : Node) : Except Fault SubnetSpec := do
  let get ← shape.read? o node
  return {
    vpcNameRef := ← get .vpcNameRef
    v4Prefix := ← get .v4Prefix
    ipv4VirtualRouterIp := ← get .ipv4VirtualRouterIp
    virtualRouterMac := ← get .virtualRouterMac
    v4RouteTableNameRef := ← get .v4RouteTableNameRef }

def toJson (s : SubnetSpec) : Json.Value :=
  .object [
    ("vpc_name_ref", .text s.vpcNameRef),
    ("v4_prefix", (s.v4Prefix.map Ipv4Prefix.toJson).getD .null),
    ("ipv4_virtual_router_ip", .integer s.ipv4VirtualRouterIp.toNat),
    ("virtual_router_mac", .array (s.virtualRouterMac.map fun b => .integer b.toNat)),
    ("v4_route_table_name_ref", .text s.v4RouteTableNameRef)]

end SubnetSpec

/-! ## Statuses -/

namespace SubnetStatus

inductive Field where
  | hwIndex
  | vnicCount
  deriving DecidableEq

abbrev Field.Value : Field → Type
  | .hwIndex => Int32
  | .vnicCount => Int32

def shape : Shape Field Field.Value where
  title := "struct SubnetStatus"
  fields := [.hwIndex, .vnicCount]
  name
    | .hwIndex => "hw_index"
    | .vnicCount => "vnic_count"
  read
    | .hwIndex, _, node => node.asInt32
    | .vnicCount, _, node => node.asInt32
  fallback
    | .hwIndex => some 0
    | .vnicCount => some 0

def ofNode (o : Origin) (node : Node) : Except Fault SubnetStatus := do
  let get ← shape.read? o node
  return { hwIndex := ← get .hwIndex, vnicCount := ← get .vnicCount }

def toJson (s : SubnetStatus) : Json.Value :=
  .object [("hw_index", .integer s.hwIndex.toInt), ("vnic_count", .integer s.vnicCount.toInt)]

end SubnetStatus

/-! ## Subnets -/

namespace Subnet

inductive Field where
  | name
  | spec
  | status
  deriving DecidableEq

abbrev Field.Value : Field → Type
  | .name => String
  | .spec => Option SubnetSpec
  | .status => Option SubnetStatus

def shape : Shape Field Field.Value where
  title := "struct Subnet"
  fields := [.name, .spec, .status]
  name
    | .name => "name"
    | .spec => "spec"
    | .status => "status"
  read
    | .name, _, node => node.asText
    | .spec, o, node => node.asOption (SubnetSpec.ofNode o)
    | .status, o, node => node.asOption (SubnetStatus.ofNode o)
  fallback
    | .name => some ""
    | .spec => some none
    | .status => some none

def ofNode (o : Origin) (node : Node) : Except Fault Subnet := do
  let get ← shape.read? o node
  return { name := ← get .name, spec := ← get .spec, status := ← get .status }

def toJson (s : Subnet) : Json.Value :=
  .object <| ("name", .text s.name) ::
    (Json.optionalMember "spec" (s.spec.map SubnetSpec.toJson) ++
      Json.optionalMember "status" (s.status.map SubnetStatus.toJson))

end Subnet
end SubnetRegistry
