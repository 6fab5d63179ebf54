import SubnetRegistry.Proofs.Json.RereadRecord
import SubnetRegistry.Proofs.Wire.Request

/-!
# The integers of a subnet

A subnet has six integers, one of them for each byte of an address. Each stands at the end of some steps
from the subnet, and has a range. A subnet, and a request that holds one, is read with another integer in
its place if it is in the range, and not read if it is not.

## Main definitions

* `Subnet.Integer` — the integers of a subnet, with their steps, their ranges and their values.

## Main statements

* `Ipv4Prefix.rereads`, `SubnetSpec.rereads`, `SubnetStatus.rereads`, `Subnet.rereads` — the readers of
  the records keep, and a change of one field leaves the others.
* `Subnet.Integer.tracks` — a subnet with another integer in the place of one of its own.
* `CreateRequest.tracks`, `UpdateRequest.tracks` — requests with such a subnet.
-/
namespace SubnetRegistry

open Json (Node Origin Shape Fault Step Swap Width Keeps Tracks Again)

/-- An integer of a subnet. -/
inductive Subnet.Integer where
  | addr
  | len
  | routerIp
  | macByte (index : Nat)
  | hwIndex
  | vnicCount
  deriving DecidableEq

namespace Subnet.Integer

def path : Integer → List Step
  | .addr => [.field "spec" 1, .field "v4_prefix" 1, .field "addr" 0]
  | .len => [.field "spec" 1, .field "v4_prefix" 1, .field "len" 1]
  | .routerIp => [.field "spec" 1, .field "ipv4_virtual_router_ip" 2]
  | .macByte index => [.field "spec" 1, .field "virtual_router_mac" 3, .item index]
  | .hwIndex => [.field "status" 2, .field "hw_index" 0]
  | .vnicCount => [.field "status" 2, .field "vnic_count" 1]

def least : Integer → Int
  | .addr | .routerIp | .macByte _ => 0
  | .len | .hwIndex | .vnicCount => -0x80000000

def greatest : Integer → Int
  | .addr | .routerIp => 0xFFFFFFFF
  | .macByte _ => 0xFF
  | .len | .hwIndex | .vnicCount => 0x7FFFFFFF

def Admits (i : Integer) (z : Int) : Prop := i.least ≤ z ∧ z ≤ i.greatest

instance (i : Integer) (z : Int) : Decidable (i.Admits z) :=
  inferInstanceAs (Decidable (_ ∧ _))

/-- The integer in a subnet, if the parts that hold it are set. -/
def get? : Integer → Subnet → Option Int
  | .addr, s => do return (← (← s.spec).v4Prefix).addr.toNat
  | .len, s => do return (← (← s.spec).v4Prefix).len.toInt
  | .routerIp, s => do return (← s.spec).ipv4VirtualRouterIp.toNat
  | .macByte index, s => do return (← (← s.spec).virtualRouterMac[index]?).toNat
  | .hwIndex, s => do return (← s.status).hwIndex.toInt
  | .vnicCount, s => do return (← s.status).vnicCount.toInt

def put (z : Int) : Integer → Subnet → Subnet
  | .addr, s => { s with
      spec := s.spec.map fun spec => { spec with
        v4Prefix := spec.v4Prefix.map fun p => { p with addr := .ofNat z.toNat } } }
  | .len, s => { s with
      spec := s.spec.map fun spec => { spec with
        v4Prefix := spec.v4Prefix.map fun p => { p with len := .ofInt z } } }
  | .routerIp, s => { s with
      spec := s.spec.map fun spec => { spec with ipv4VirtualRouterIp := .ofNat z.toNat } }
  | .macByte index, s => { s with
      spec := s.spec.map fun spec => { spec with
        virtualRouterMac := spec.virtualRouterMac.modify index fun _ => .ofNat z.toNat } }
  | .hwIndex, s => { s with
      status := s.status.map fun status => { status with hwIndex := .ofInt z } }
  | .vnicCount, s => { s with
      status := s.status.map fun status => { status with vnicCount := .ofInt z } }

end Subnet.Integer

variable {w : Swap} {z : Int} {fits : Prop}

/-! ## Readers of integers -/

theorem Json.keeps_asUInt32 : Keeps w Node.asUInt32 := Keeps.map (.asInteger .u32) _

theorem Json.keeps_asInt32 : Keeps w Node.asInt32 := Keeps.map (.asInteger .i32) _

theorem Json.keeps_asByte : Keeps w Node.asByte := Keeps.map (.asInteger .u8) _

theorem UInt32.toNat_ofNat_toNat {z : Int} (h : Width.u32.Holds z) :
    ((UInt32.ofNat z.toNat).toNat : Int) = z := by
  obtain ⟨hlow, hhigh⟩ := h
  simp only [Width.least, Width.greatest] at hlow hhigh
  rw [UInt32.toNat_ofNat_of_lt' (by simp [UInt32.size]; omega)]
  omega

theorem UInt8.toNat_ofNat_toNat {z : Int} (h : Width.u8.Holds z) :
    ((UInt8.ofNat z.toNat).toNat : Int) = z := by
  obtain ⟨hlow, hhigh⟩ := h
  simp only [Width.least, Width.greatest] at hlow hhigh
  rw [UInt8.toNat_ofNat_of_lt' (by simp [UInt8.size]; omega)]
  omega

theorem Int32.toInt_ofInt_of_holds {z : Int} (h : Width.i32.Holds z) : (Int32.ofInt z).toInt = z := by
  obtain ⟨hlow, hhigh⟩ := h
  simp only [Width.least, Width.greatest] at hlow hhigh
  exact Int32.toInt_ofInt_of_le hlow (by omega)

section

variable (hw : w.Reads z)

include hw

theorem Json.tracks_asUInt32 : Tracks w z (Width.u32.Holds z) Node.asUInt32 []
    (fun _ => .ofNat z.toNat) fun x => some x.toNat :=
  (hw.asInteger .u32).map (fun _ => rfl) fun _ h => congrArg some (UInt32.toNat_ofNat_toNat h)

theorem Json.tracks_asInt32 : Tracks w z (Width.i32.Holds z) Node.asInt32 []
    (fun _ => .ofInt z) fun x => some x.toInt :=
  (hw.asInteger .i32).map (fun _ => rfl) fun _ h => congrArg some (Int32.toInt_ofInt_of_holds h)

theorem Json.tracks_asByte : Tracks w z (Width.u8.Holds z) Node.asByte []
    (fun _ => .ofNat z.toNat) fun x => some x.toNat :=
  (hw.asInteger .u8).map (fun _ => rfl) fun _ h => congrArg some (UInt8.toNat_ofNat_toNat h)

end

/-! ## Records -/

def Ipv4Prefix.modify (p : Ipv4Prefix) : (f : Field) → (f.Value → f.Value) → Ipv4Prefix
  | .addr, put => { p with addr := put p.addr }
  | .len, put => { p with len := put p.len }

theorem Ipv4Prefix.rereads (o : Origin) : shape.Rereads w o (ofNode o) field modify where
  reads := reads o
  regular := regular
  keeps_read
    | .addr => Json.keeps_asUInt32
    | .len => Json.keeps_asInt32
  field_modify p f put := by
    funext g
    cases f <;> cases g <;> rfl

def SubnetSpec.modify (s : SubnetSpec) : (f : Field) → (f.Value → f.Value) → SubnetSpec
  | .vpcNameRef, put => { s with vpcNameRef := put s.vpcNameRef }
  | .v4Prefix, put => { s with v4Prefix := put s.v4Prefix }
  | .ipv4VirtualRouterIp, put => { s with ipv4VirtualRouterIp := put s.ipv4VirtualRouterIp }
  | .virtualRouterMac, put => { s with virtualRouterMac := put s.virtualRouterMac }
  | .v4RouteTableNameRef, put => { s with v4RouteTableNameRef := put s.v4RouteTableNameRef }

theorem SubnetSpec.rereads (o : Origin) : shape.Rereads w o (ofNode o) field modify where
  reads := reads o
  regular := regular
  keeps_read
    | .vpcNameRef | .v4RouteTableNameRef => .asText
    | .v4Prefix => .asOption (Ipv4Prefix.rereads o).keeps
    | .ipv4VirtualRouterIp => Json.keeps_asUInt32
    | .virtualRouterMac => .asList Json.keeps_asByte
  field_modify s f put := by
    funext g
    cases f <;> cases g <;> rfl

def SubnetStatus.modify (s : SubnetStatus) : (f : Field) → (f.Value → f.Value) → SubnetStatus
  | .hwIndex, put => { s with hwIndex := put s.hwIndex }
  | .vnicCount, put => { s with vnicCount := put s.vnicCount }

theorem SubnetStatus.rereads (o : Origin) : shape.Rereads w o (ofNode o) field modify where
  reads := reads o
  regular := regular
  keeps_read
    | .hwIndex | .vnicCount => Json.keeps_asInt32
  field_modify s f put := by
    funext g
    cases f <;> cases g <;> rfl

def Subnet.modify (s : Subnet) : (f : Field) → (f.Value → f.Value) → Subnet
  | .name, put => { s with name := put s.name }
  | .spec, put => { s with spec := put s.spec }
  | .status, put => { s with status := put s.status }

theorem Subnet.rereads (o : Origin) : shape.Rereads w o (ofNode o) field modify where
  reads := reads o
  regular := regular
  keeps_read
    | .name => .asText
    | .spec => .asOption (SubnetSpec.rereads o).keeps
    | .status => .asOption (SubnetStatus.rereads o).keeps
  field_modify s f put := by
    funext g
    cases f <;> cases g <;> rfl

/-! ## Subnets -/

/-- A subnet is read with another integer in the place of one of its own. -/
theorem Subnet.Integer.tracks {o : Origin} (i : Integer) (hw : w.Reads z) :
    Tracks w z (i.Admits z) (ofNode o) i.path (i.put z) i.get? := by
  cases i with
  | addr =>
    exact (rereads o).tracks (f := .spec) ((SubnetSpec.rereads o).tracks (f := .v4Prefix)
      ((Ipv4Prefix.rereads o).tracks (f := .addr) (Json.tracks_asUInt32 hw)).asOption).asOption
  | len =>
    exact (rereads o).tracks (f := .spec) ((SubnetSpec.rereads o).tracks (f := .v4Prefix)
      ((Ipv4Prefix.rereads o).tracks (f := .len) (Json.tracks_asInt32 hw)).asOption).asOption
  | routerIp =>
    exact (rereads o).tracks (f := .spec) ((SubnetSpec.rereads o).tracks (f := .ipv4VirtualRouterIp)
      (Json.tracks_asUInt32 hw)).asOption
  | macByte index =>
    exact (rereads o).tracks (f := .spec) ((SubnetSpec.rereads o).tracks (f := .virtualRouterMac)
      ((Json.tracks_asByte hw).asList Json.keeps_asByte index)).asOption
  | hwIndex =>
    exact (rereads o).tracks (f := .status) ((SubnetStatus.rereads o).tracks (f := .hwIndex)
      (Json.tracks_asInt32 hw)).asOption
  | vnicCount =>
    exact (rereads o).tracks (f := .status) ((SubnetStatus.rereads o).tracks (f := .vnicCount)
      (Json.tracks_asInt32 hw)).asOption

/-! ## Requests -/

theorem CreateRequest.keeps_read : ∀ f, Keeps w (shape.read f .text)
  | .parent | .subnetId => .asText
  | .subnet => (Subnet.rereads .text).keeps

theorem UpdateRequest.keeps_read : ∀ f, Keeps w (shape.read f .text)
  | .subnet => (Subnet.rereads .text).keeps
  | .updateMask => .asOption (.map (.asTextFor _) _)
  | .allowMissing => .asBoolean

section

variable {path : List Step} {put : Subnet → Subnet} {get? : Subnet → Option Int}

theorem CreateRequest.tracks (h : Tracks w z fits (Subnet.ofNode .text) path put get?) :
    Tracks w z fits ofNode (.field "subnet" 2 :: path) (fun r => { r with subnet := put r.subnet })
      fun r => get? r.subnet := by
  refine reads.tracks (f := .subnet) regular keeps_read h fun _ => ?_
  funext g
  cases g <;> rfl

theorem UpdateRequest.tracks (h : Tracks w z fits (Subnet.ofNode .text) path put get?) :
    Tracks w z fits ofNode (.field "subnet" 0 :: path) (fun r => { r with subnet := put r.subnet })
      fun r => get? r.subnet := by
  refine reads.tracks (f := .subnet) regular keeps_read h fun _ => ?_
  funext g
  cases g <;> rfl

end

end SubnetRegistry
