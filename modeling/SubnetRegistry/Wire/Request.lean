import SubnetRegistry.Request
import SubnetRegistry.Wire.Subnet

/-!
# Requests as JSON

A mask is one text, its paths with commas between them. The subnet of a creation and of an update and
the name of the other two must be there; everything else may be left out.
-/
namespace SubnetRegistry

open Json (Node Origin Shape Fault Expectation)

def FieldMask.ofNode (node : Node) : Except Fault FieldMask :=
  FieldMask.ofJoined <$> node.asTextFor .maskPaths

def FieldMask.toJson (m : FieldMask) : Json.Value := .text m.joined

/-! ## Creation -/

namespace CreateRequest

inductive Field where
  | parent
  | subnetId
  | subnet
  deriving DecidableEq

abbrev Field.Value : Field → Type
  | .parent => String
  | .subnetId => String
  | .subnet => Subnet

def shape : Shape Field Field.Value where
  title := "struct CreateSubnetRequest"
  fields := [.parent, .subnetId, .subnet]
  name
    | .parent => "parent"
    | .subnetId => "subnet_id"
    | .subnet => "subnet"
  read
    | .parent, _, node => node.asText
    | .subnetId, _, node => node.asText
    | .subnet, o, node => Subnet.ofNode o node
  fallback
    | .parent => some ""
    | .subnetId => some ""
    | .subnet => none

def ofNode (node : Node) : Except Fault CreateRequest := do
  let get ← shape.read? .text node
  return { parent := ← get .parent, subnetId := ← get .subnetId, subnet := ← get .subnet }

def toJson (r : CreateRequest) : Json.Value :=
  .object [("parent", .text r.parent), ("subnet_id", .text r.subnetId), ("subnet", r.subnet.toJson)]

end CreateRequest

/-! ## Fetching -/

namespace GetRequest

inductive Field where
  | name
  deriving DecidableEq

abbrev Field.Value : Field → Type
  | .name => String

def shape : Shape Field Field.Value where
  title := "struct GetSubnetRequest"
  fields := [.name]
  name
    | .name => "name"
  read
    | .name, _, node => node.asText
  fallback
    | .name => none

def ofNode (node : Node) : Except Fault GetRequest := do
  let get ← shape.read? .text node
  return { name := ← get .name }

def toJson (r : GetRequest) : Json.Value := .object [("name", .text r.name)]

end GetRequest

/-! ## Updates -/

namespace UpdateRequest

inductive Field where
  | subnet
  | updateMask
  | allowMissing
  deriving DecidableEq

abbrev Field.Value : Field → Type
  | .subnet => Subnet
  | .updateMask => Option FieldMask
  | .allowMissing => Bool

def shape : Shape Field Field.Value where
  title := "struct UpdateSubnetRequest"
  fields := [.subnet, .updateMask, .allowMissing]
  name
    | .subnet => "subnet"
    | .updateMask => "update_mask"
    | .allowMissing => "allow_missing"
  read
    | .subnet, o, node => Subnet.ofNode o node
    | .updateMask, _, node => node.asOption FieldMask.ofNode
    | .allowMissing, _, node => node.asBoolean
  fallback
    | .subnet => none
    | .updateMask => some none
    | .allowMissing => some false

def ofNode (node : Node) : Except Fault UpdateRequest := do
  let get ← shape.read? .text node
  return {
    subnet := ← get .subnet
    updateMask := ← get .updateMask
    allowMissing := ← get .allowMissing }

def toJson (r : UpdateRequest) : Json.Value :=
  .object <| ("subnet", r.subnet.toJson) ::
    (Json.optionalMember "update_mask" (r.updateMask.map FieldMask.toJson) ++
      [("allow_missing", .boolean r.allowMissing)])

end UpdateRequest

/-! ## Deletion -/

namespace DeleteRequest

inductive Field where
  | name
  | allowMissing
  deriving DecidableEq

abbrev Field.Value : Field → Type
  | .name => String
  | .allowMissing => Bool

def shape : Shape Field Field.Value where
  title := "struct DeleteSubnetRequest"
  fields := [.name, .allowMissing]
  name
    | .name => "name"
    | .allowMissing => "allow_missing"
  read
    | .name, _, node => node.asText
    | .allowMissing, _, node => node.asBoolean
  fallback
    | .name => none
    | .allowMissing => some false

def ofNode (node : Node) : Except Fault DeleteRequest := do
  let get ← shape.read? .text node
  return { name := ← get .name, allowMissing := ← get .allowMissing }

def toJson (r : DeleteRequest) : Json.Value :=
  .object [("name", .text r.name), ("allow_missing", .boolean r.allowMissing)]

end DeleteRequest

def Request.toJson : Request → Json.Value
  | .create r => r.toJson
  | .get r => r.toJson
  | .update r => r.toJson
  | .delete r => r.toJson

end SubnetRegistry
