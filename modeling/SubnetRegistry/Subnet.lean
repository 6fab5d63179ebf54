import SubnetRegistry.Decimal.Integer

/-!
# Subnets

A subnet has a name, a specification and a status. The name identifies it; the other two are unset
or set as a whole. A field that is read through an unset part has its default value.
-/
namespace SubnetRegistry

/-- An address range: a 32-bit address and a length. The length is not checked. -/
structure Ipv4Prefix where
  addr : UInt32 := 0
  len : Int32 := 0
  deriving DecidableEq, Repr, Inhabited

/-- What a subnet is to be. -/
structure SubnetSpec where
  vpcNameRef : String := ""
  v4Prefix : Option Ipv4Prefix := none
  ipv4VirtualRouterIp : UInt32 := 0
  virtualRouterMac : List UInt8 := []
  v4RouteTableNameRef : String := ""
  deriving DecidableEq, Repr, Inhabited

/-- What is known of a subnet. -/
structure SubnetStatus where
  hwIndex : Int32 := 0
  vnicCount : Int32 := 0
  deriving DecidableEq, Repr, Inhabited

structure Subnet where
  name : String := ""
  spec : Option SubnetSpec := none
  status : Option SubnetStatus := none
  deriving DecidableEq, Repr, Inhabited

/-- The subnet without a name that has the given specification. -/
def Subnet.ofSpec (spec : SubnetSpec) : Subnet := { spec := some spec }

def Subnet.named (s : Subnet) (name : String) : Subnet := { s with name }

namespace Ipv4Prefix

/-- Four octets, the most significant first. -/
structure Octets where
  a : UInt8
  b : UInt8
  c : UInt8
  d : UInt8
  deriving DecidableEq, Repr

def octets (p : Ipv4Prefix) : Octets :=
  ⟨(p.addr >>> 24).toUInt8, (p.addr >>> 16).toUInt8, (p.addr >>> 8).toUInt8, p.addr.toUInt8⟩

def ofOctets (o : Octets) (len : Int32) : Ipv4Prefix :=
  { addr := o.a.toUInt32 <<< 24 ||| o.b.toUInt32 <<< 16 ||| o.c.toUInt32 <<< 8 ||| o.d.toUInt32
    len }

/-- The prefix as `a.b.c.d/len`. -/
def chars (p : Ipv4Prefix) : List Char :=
  let o := p.octets
  Decimal.ofNat o.a.toNat ++ '.' :: Decimal.ofNat o.b.toNat ++ '.' :: Decimal.ofNat o.c.toNat ++
    '.' :: Decimal.ofNat o.d.toNat ++ '/' :: Decimal.ofInt p.len.toInt

def text (p : Ipv4Prefix) : String := String.ofList p.chars

end Ipv4Prefix
end SubnetRegistry
