import SubnetRegistry.Proofs.Json.Edits
import SubnetRegistry.Wire.Subnet

/-!
# Subnets are read by the names of their members

A subnet is read from its text and from every edit of it, and so are its parts. A broken text is not
read.

## Main definitions

* `Subnet.layout` — the members of a subnet and of its parts, and what they are if they are absent.

## Main statements

* `Subnet.readsEdits`, `Subnet.rejects` — the two.
* `Subnet.ofNode_tree` — every part whose tree is that of a subnet as JSON is read as that subnet.
-/
namespace SubnetRegistry

open Json (Node Origin Shape Fault Layout ReadsEdits Rejects)

/-! ## Integers -/

theorem Json.Node.Is.asUInt32 {node : Node} {x : UInt32}
    (h : node.Is (.number (.ok (.integer x.toNat)))) : node.asUInt32 = .ok x := by
  have hlt := x.toNat_lt
  rw [Json.Node.asUInt32, h.asInteger (by simp [Json.Width.least]) (by
    simp [Json.Width.greatest]
    omega)]
  show Except.ok (UInt32.ofNat (x.toNat : Int).toNat) = _
  rw [Int.toNat_natCast, UInt32.ofNat_toNat]

theorem Json.Node.Is.asInt32 {node : Node} {x : Int32}
    (h : node.Is (.number (.ok (.integer x.toInt)))) : node.asInt32 = .ok x := by
  have hlow := x.le_toInt
  have hhigh := x.toInt_lt
  rw [Json.Node.asInt32, h.asInteger (by simpa [Json.Width.least] using hlow) (by
    simp [Json.Width.greatest]
    omega)]
  show Except.ok (Int32.ofInt x.toInt) = _
  rw [Int32.ofInt_toInt]

theorem Json.Node.Is.asByte {node : Node} {x : UInt8}
    (h : node.Is (.number (.ok (.integer x.toNat)))) : node.asByte = .ok x := by
  have hlt := x.toNat_lt
  rw [Json.Node.asByte, h.asInteger (by simp [Json.Width.least]) (by
    simp [Json.Width.greatest]
    omega)]
  show Except.ok (UInt8.ofNat (x.toNat : Int).toNat) = _
  rw [Int.toNat_natCast, UInt8.ofNat_toNat]

theorem Json.narrow_uint32 (x : UInt32) : (Json.Value.integer x.toNat).Narrow := by
  have hlt := x.toNat_lt
  constructor <;> omega

theorem Json.narrow_int32 (x : Int32) : (Json.Value.integer x.toInt).Narrow := by
  have hlow := x.le_toInt
  have hhigh := x.toInt_lt
  constructor <;> omega

theorem Json.narrow_byte (x : UInt8) : (Json.Value.integer x.toNat).Narrow := by
  have hlt := x.toNat_lt
  constructor <;> omega

theorem Json.readsEdits_text (s : String) : ReadsEdits .plain Node.asText (.text s) s :=
  .plain trivial fun _ h => h.asText

theorem Json.readsEdits_boolean (b : Bool) : ReadsEdits .plain Node.asBoolean (.boolean b) b :=
  .plain trivial fun _ h => h.asBoolean

theorem Json.readsEdits_uint32 (x : UInt32) :
    ReadsEdits .plain Node.asUInt32 (.integer x.toNat) x :=
  .plain (narrow_uint32 x) fun _ h => h.asUInt32

theorem Json.readsEdits_int32 (x : Int32) : ReadsEdits .plain Node.asInt32 (.integer x.toInt) x :=
  .plain (narrow_int32 x) fun _ h => h.asInt32

/-! ## Defaults -/

theorem Json.eq_zero_of_uint32 {x : UInt32}
    (h : some (Json.Value.integer x.toNat) = some (.integer 0)) : x = 0 := by
  have hnat : (x.toNat : Int) = 0 := Json.Value.integer.inj (Option.some.inj h)
  exact UInt32.toNat_inj.1 (Int.natCast_eq_zero.1 hnat)

theorem Json.eq_zero_of_int32 {x : Int32}
    (h : some (Json.Value.integer x.toInt) = some (.integer 0)) : x = 0 :=
  Int32.toInt_inj.1 (Json.Value.integer.inj (Option.some.inj h))

theorem Json.eq_empty_of_text {x : String}
    (h : some (Json.Value.text x) = some (.text "")) : x = "" :=
  Json.Value.text.inj (Option.some.inj h)

/-- What is not written, or written as null, is unset. -/
theorem Json.eq_none_of_unset {α : Type} {toJson : α → Json.Value} {o : Option α}
    (hset : ∀ a, toJson a ≠ .null) (h : o.map toJson = none ∨ o.map toJson = some .null) :
    o = none := by
  rcases h with h | h
  · exact Option.map_eq_none_iff.1 h
  · obtain ⟨a, -, ha⟩ := Option.map_eq_some_iff.1 h
    exact absurd ha (hset a)

/-! ## Address ranges -/

namespace Ipv4Prefix

def layout : Layout :=
  .record [("addr", some (.integer 0), .plain), ("len", some (.integer 0), .plain)]

/-- What a member is if it is absent, and its own layout. -/
def entry : Field → Option Json.Value × Layout
  | .addr | .len => (some (.integer 0), .plain)

def field (p : Ipv4Prefix) : (f : Field) → f.Value
  | .addr => p.addr
  | .len => p.len

def write (p : Ipv4Prefix) : Field → Option Json.Value
  | .addr => some (.integer p.addr.toNat)
  | .len => some (.integer p.len.toInt)

theorem reads (o : Origin) : shape.Reads o (ofNode o) field where
  ok_iff {node r} := by
    constructor
    · intro h
      obtain ⟨get, hread, h⟩ := exists_of_bind_eq_ok h
      obtain ⟨addr, haddr, h⟩ := exists_of_bind_eq_ok h
      obtain ⟨len, hlen, h⟩ := exists_of_bind_eq_ok h
      cases h
      refine ⟨get, hread, fun f => ?_⟩
      cases f
      case addr => exact haddr
      case len => exact hlen
    · rintro ⟨get, hread, hget⟩
      rw [ofNode, hread]
      simp only [bind, Except.bind, pure, Except.pure, hget]
      rfl

theorem regular : shape.Regular := ⟨fun f => by cases f <;> rfl, by decide⟩

theorem writes (p : Ipv4Prefix) (o : Origin) : shape.Writes o entry p.write p.field where
  read {f v} h := by
    cases f <;> cases h
    case addr => exact Json.readsEdits_uint32 p.addr
    case len => exact Json.readsEdits_int32 p.len
  fallback {f} h := by
    cases f <;> rcases h with h | h
    case addr.inr => exact congrArg some (Json.eq_zero_of_uint32 h).symm
    case len.inr => exact congrArg some (Json.eq_zero_of_int32 h).symm
    all_goals cases h

theorem readsEdits (p : Ipv4Prefix) (o : Origin) : ReadsEdits layout (ofNode o) p.toJson p := by
  exact Shape.readsEdits regular (p.writes o) (reads o)

theorem rejects (o : Origin) : Rejects layout (ofNode o) := by
  have hentry : ∀ f, Rejects (entry f).2 (shape.read f o) := fun f => by
    cases f <;> exact .plain _
  exact Shape.rejects regular hentry (fun f h => by cases f <;> cases h) (reads o)

theorem toJson_narrow (p : Ipv4Prefix) : p.toJson.Narrow :=
  ⟨Json.narrow_uint32 p.addr, Json.narrow_int32 p.len, trivial⟩

end Ipv4Prefix

/-! ## Specifications -/

namespace SubnetSpec

def layout : Layout :=
  .record [
    ("vpc_name_ref", some (.text ""), .plain),
    ("v4_prefix", some .null, Ipv4Prefix.layout),
    ("ipv4_virtual_router_ip", some (.integer 0), .plain),
    ("virtual_router_mac", some (.array []), .plain),
    ("v4_route_table_name_ref", some (.text ""), .plain)]

def entry : Field → Option Json.Value × Layout
  | .vpcNameRef | .v4RouteTableNameRef => (some (.text ""), .plain)
  | .v4Prefix => (some .null, Ipv4Prefix.layout)
  | .ipv4VirtualRouterIp => (some (.integer 0), .plain)
  | .virtualRouterMac => (some (.array []), .plain)

def field (s : SubnetSpec) : (f : Field) → f.Value
  | .vpcNameRef => s.vpcNameRef
  | .v4Prefix => s.v4Prefix
  | .ipv4VirtualRouterIp => s.ipv4VirtualRouterIp
  | .virtualRouterMac => s.virtualRouterMac
  | .v4RouteTableNameRef => s.v4RouteTableNameRef

def prefixJson (s : SubnetSpec) : Json.Value := (s.v4Prefix.map Ipv4Prefix.toJson).getD .null

def write (s : SubnetSpec) : Field → Option Json.Value
  | .vpcNameRef => some (.text s.vpcNameRef)
  | .v4Prefix => some s.prefixJson
  | .ipv4VirtualRouterIp => some (.integer s.ipv4VirtualRouterIp.toNat)
  | .virtualRouterMac => some (.array (s.virtualRouterMac.map fun b => .integer b.toNat))
  | .v4RouteTableNameRef => some (.text s.v4RouteTableNameRef)

theorem reads (o : Origin) : shape.Reads o (ofNode o) field where
  ok_iff {node r} := by
    constructor
    · intro h
      obtain ⟨get, hread, h⟩ := exists_of_bind_eq_ok h
      obtain ⟨vpc, hvpc, h⟩ := exists_of_bind_eq_ok h
      obtain ⟨range, hrange, h⟩ := exists_of_bind_eq_ok h
      obtain ⟨ip, hip, h⟩ := exists_of_bind_eq_ok h
      obtain ⟨mac, hmac, h⟩ := exists_of_bind_eq_ok h
      obtain ⟨routes, hroutes, h⟩ := exists_of_bind_eq_ok h
      cases h
      refine ⟨get, hread, fun f => ?_⟩
      cases f
      case vpcNameRef => exact hvpc
      case v4Prefix => exact hrange
      case ipv4VirtualRouterIp => exact hip
      case virtualRouterMac => exact hmac
      case v4RouteTableNameRef => exact hroutes
    · rintro ⟨get, hread, hget⟩
      rw [ofNode, hread]
      simp only [bind, Except.bind, pure, Except.pure, hget]
      rfl

theorem regular : shape.Regular := ⟨fun f => by cases f <;> rfl, by decide⟩

theorem readsEdits_prefix (s : SubnetSpec) (o : Origin) :
    ReadsEdits Ipv4Prefix.layout (Node.asOption (Ipv4Prefix.ofNode o)) s.prefixJson s.v4Prefix := by
  rw [prefixJson]
  cases s.v4Prefix with
  | none => exact .unset _
  | some p => exact .set (p.readsEdits o)

theorem readsEdits_mac (macs : List UInt8) : ReadsEdits .plain (Node.asList Node.asByte)
    (.array (macs.map fun b => .integer b.toNat)) macs := by
  have htrees : Json.Value.itemTrees (macs.map fun b => .integer b.toNat) =
      macs.map fun b => .number (.ok (.integer b.toNat)) :=
    Json.Value.itemTrees_map _ _
  refine .plain (Json.Value.narrowItems_map fun b _ => ?_) fun node hnode => ?_
  · have hb := b.toNat_lt
    constructor <;> omega
  · rw [Json.Value.tree, htrees] at hnode
    exact hnode.asList fun _ _ _ h => h.asByte

theorem eq_none_of_prefixJson {s : SubnetSpec} (h : some s.prefixJson = some .null) :
    s.v4Prefix = none := by
  rw [prefixJson] at h
  cases hp : s.v4Prefix with
  | none => rfl
  | some p =>
    rw [hp] at h
    cases h

theorem writes (s : SubnetSpec) (o : Origin) : shape.Writes o entry s.write s.field where
  read {f v} h := by
    cases f <;> cases h
    case vpcNameRef => exact Json.readsEdits_text s.vpcNameRef
    case v4Prefix => exact s.readsEdits_prefix o
    case ipv4VirtualRouterIp => exact Json.readsEdits_uint32 s.ipv4VirtualRouterIp
    case virtualRouterMac => exact readsEdits_mac s.virtualRouterMac
    case v4RouteTableNameRef => exact Json.readsEdits_text s.v4RouteTableNameRef
  fallback {f} h := by
    cases f <;> rcases h with h | h
    case vpcNameRef.inr | v4RouteTableNameRef.inr =>
      exact congrArg some (Json.eq_empty_of_text h).symm
    case v4Prefix.inr => exact congrArg some (eq_none_of_prefixJson h).symm
    case ipv4VirtualRouterIp.inr => exact congrArg some (Json.eq_zero_of_uint32 h).symm
    case virtualRouterMac.inr =>
      have hnil := List.map_eq_nil_iff.1 (Json.Value.array.inj (Option.some.inj h))
      exact congrArg some hnil.symm
    all_goals cases h

theorem readsEdits (s : SubnetSpec) (o : Origin) : ReadsEdits layout (ofNode o) s.toJson s := by
  exact Shape.readsEdits regular (s.writes o) (reads o)

theorem rejects (o : Origin) : Rejects layout (ofNode o) := by
  have hentry : ∀ f, Rejects (entry f).2 (shape.read f o) := fun f => by
    cases f
    case v4Prefix => exact .option (Ipv4Prefix.rejects o)
    all_goals exact .plain _
  exact Shape.rejects regular hentry (fun f h => by cases f <;> cases h) (reads o)

theorem toJson_narrow (s : SubnetSpec) : s.toJson.Narrow := by
  have hrange : s.prefixJson.Narrow := by
    rw [prefixJson]
    cases s.v4Prefix with
    | none => trivial
    | some p => exact p.toJson_narrow
  have hmac := Json.Value.narrowItems_map fun b (_ : b ∈ s.virtualRouterMac) => Json.narrow_byte b
  exact ⟨trivial, hrange, Json.narrow_uint32 _, hmac, trivial, trivial⟩

end SubnetSpec

/-! ## Statuses -/

namespace SubnetStatus

def layout : Layout :=
  .record [("hw_index", some (.integer 0), .plain), ("vnic_count", some (.integer 0), .plain)]

def entry : Field → Option Json.Value × Layout
  | .hwIndex | .vnicCount => (some (.integer 0), .plain)

def field (s : SubnetStatus) : (f : Field) → f.Value
  | .hwIndex => s.hwIndex
  | .vnicCount => s.vnicCount

def write (s : SubnetStatus) : Field → Option Json.Value
  | .hwIndex => some (.integer s.hwIndex.toInt)
  | .vnicCount => some (.integer s.vnicCount.toInt)

theorem reads (o : Origin) : shape.Reads o (ofNode o) field where
  ok_iff {node r} := by
    constructor
    · intro h
      obtain ⟨get, hread, h⟩ := exists_of_bind_eq_ok h
      obtain ⟨index, hindex, h⟩ := exists_of_bind_eq_ok h
      obtain ⟨count, hcount, h⟩ := exists_of_bind_eq_ok h
      cases h
      refine ⟨get, hread, fun f => ?_⟩
      cases f
      case hwIndex => exact hindex
      case vnicCount => exact hcount
    · rintro ⟨get, hread, hget⟩
      rw [ofNode, hread]
      simp only [bind, Except.bind, pure, Except.pure, hget]
      rfl

theorem regular : shape.Regular := ⟨fun f => by cases f <;> rfl, by decide⟩

theorem writes (s : SubnetStatus) (o : Origin) : shape.Writes o entry s.write s.field where
  read {f v} h := by
    cases f <;> cases h
    case hwIndex => exact Json.readsEdits_int32 s.hwIndex
    case vnicCount => exact Json.readsEdits_int32 s.vnicCount
  fallback {f} h := by
    cases f <;> rcases h with h | h
    case hwIndex.inr | vnicCount.inr => exact congrArg some (Json.eq_zero_of_int32 h).symm
    all_goals cases h

theorem readsEdits (s : SubnetStatus) (o : Origin) : ReadsEdits layout (ofNode o) s.toJson s := by
  exact Shape.readsEdits regular (s.writes o) (reads o)

theorem rejects (o : Origin) : Rejects layout (ofNode o) := by
  have hentry : ∀ f, Rejects (entry f).2 (shape.read f o) := fun f => by
    cases f <;> exact .plain _
  exact Shape.rejects regular hentry (fun f h => by cases f <;> cases h) (reads o)

theorem toJson_narrow (s : SubnetStatus) : s.toJson.Narrow :=
  ⟨Json.narrow_int32 s.hwIndex, Json.narrow_int32 s.vnicCount, trivial⟩

end SubnetStatus

/-! ## Subnets -/

namespace Subnet

def layout : Layout :=
  .record [
    ("name", some (.text ""), .plain),
    ("spec", some .null, SubnetSpec.layout),
    ("status", some .null, SubnetStatus.layout)]

def entry : Field → Option Json.Value × Layout
  | .name => (some (.text ""), .plain)
  | .spec => (some .null, SubnetSpec.layout)
  | .status => (some .null, SubnetStatus.layout)

def field (s : Subnet) : (f : Field) → f.Value
  | .name => s.name
  | .spec => s.spec
  | .status => s.status

def write (s : Subnet) : Field → Option Json.Value
  | .name => some (.text s.name)
  | .spec => s.spec.map SubnetSpec.toJson
  | .status => s.status.map SubnetStatus.toJson

theorem toJson_eq (s : Subnet) : s.toJson = .object (shape.written s.write shape.fields) := by
  obtain ⟨name, _ | spec, _ | status⟩ := s <;> rfl

theorem reads (o : Origin) : shape.Reads o (ofNode o) field where
  ok_iff {node r} := by
    constructor
    · intro h
      obtain ⟨get, hread, h⟩ := exists_of_bind_eq_ok h
      obtain ⟨name, hname, h⟩ := exists_of_bind_eq_ok h
      obtain ⟨spec, hspec, h⟩ := exists_of_bind_eq_ok h
      obtain ⟨status, hstatus, h⟩ := exists_of_bind_eq_ok h
      cases h
      refine ⟨get, hread, fun f => ?_⟩
      cases f
      case name => exact hname
      case spec => exact hspec
      case status => exact hstatus
    · rintro ⟨get, hread, hget⟩
      rw [ofNode, hread]
      simp only [bind, Except.bind, pure, Except.pure, hget]
      rfl

theorem regular : shape.Regular := ⟨fun f => by cases f <;> rfl, by decide⟩

theorem writes (s : Subnet) (o : Origin) : shape.Writes o entry s.write s.field where
  read {f v} h := by
    cases f
    case name =>
      cases h
      exact Json.readsEdits_text s.name
    case spec =>
      obtain ⟨spec, hspec, rfl⟩ := Option.map_eq_some_iff.1 h
      have hfield : s.field .spec = some spec := hspec
      rw [hfield]
      exact .set (spec.readsEdits o)
    case status =>
      obtain ⟨status, hstatus, rfl⟩ := Option.map_eq_some_iff.1 h
      have hfield : s.field .status = some status := hstatus
      rw [hfield]
      exact .set (status.readsEdits o)
  fallback {f} h := by
    cases f
    case name =>
      rcases h with h | h
      · cases h
      · exact congrArg some (Json.eq_empty_of_text h).symm
    case spec => exact congrArg some (Json.eq_none_of_unset nofun h).symm
    case status => exact congrArg some (Json.eq_none_of_unset nofun h).symm

theorem readsEdits (s : Subnet) (o : Origin) : ReadsEdits layout (ofNode o) s.toJson s := by
  rw [toJson_eq]
  exact Shape.readsEdits regular (s.writes o) (reads o)

theorem rejects (o : Origin) : Rejects layout (ofNode o) := by
  have hentry : ∀ f, Rejects (entry f).2 (shape.read f o) := fun f => by
    cases f
    case name => exact .plain _
    case spec => exact .option (SubnetSpec.rejects o)
    case status => exact .option (SubnetStatus.rejects o)
  exact Shape.rejects regular hentry (fun f h => by cases f <;> cases h) (reads o)

theorem ofNode_tree (s : Subnet) {o : Origin} {node : Node} (h : node.Is s.toJson.tree) :
    ofNode o node = .ok s :=
  (s.readsEdits o).of_tree h

theorem toJson_narrow (s : Subnet) : s.toJson.Narrow := by
  refine ⟨trivial, Json.Value.narrowMembers_append ?_ ?_⟩
  · cases s.spec with
    | none => trivial
    | some spec => exact ⟨spec.toJson_narrow, trivial⟩
  · cases s.status with
    | none => trivial
    | some status => exact ⟨status.toJson_narrow, trivial⟩

end Subnet

end SubnetRegistry
