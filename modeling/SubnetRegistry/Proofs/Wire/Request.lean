import SubnetRegistry.Proofs.Wire.Subnet
import SubnetRegistry.Wire.Request

/-!
# Requests are read by the names of their members

A request is read from its text and from every edit of it, and a broken text is not read. A mask is read
back from its text where no path has a comma and the mask is not one empty path. Every mask that was
read is of this kind.

## Main statements

* `CreateRequest.readsEdits`, `CreateRequest.rejects`, … — the requests of each operation.
-/
namespace SubnetRegistry

open Json (Node Origin Shape Fault Layout ReadsEdits Rejects)

/-! ## Masks -/

theorem Text.join_eq_nil_iff {sep : Char} {pieces : List (List Char)} :
    Text.join sep pieces = [] ↔ pieces = [] ∨ pieces = [[]] := by
  match pieces with
  | [] | [piece] => simp [Text.join]
  | piece :: next :: pieces => simp [Text.join_cons_cons]

namespace FieldMask

/-- No path has a comma, and there is not just one empty path. -/
structure Plain (m : FieldMask) : Prop where
  no_comma : ∀ p ∈ m.paths, ',' ∉ p.toList
  ne_blank : m.paths ≠ [""]

theorem ofJoined_joined {m : FieldMask} (h : m.Plain) : ofJoined m.joined = m := by
  obtain ⟨paths⟩ := m
  by_cases hnil : paths = []
  · rw [hnil]
    rfl
  · have hne : joined ⟨paths⟩ ≠ "" := by
      intro hblank
      have hjoin : Text.join ',' (paths.map String.toList) = [] := by
        simpa [joined] using congrArg String.toList hblank
      rcases Text.join_eq_nil_iff.1 hjoin with h' | h'
      · exact hnil (List.map_eq_nil_iff.1 h')
      · obtain ⟨p, rfl, hp⟩ := List.map_eq_singleton_iff.1 h'
        exact h.ne_blank (by rw [String.toList_eq_nil_iff.1 hp])
    have hsplit : Text.split ',' (joined ⟨paths⟩).toList = paths.map String.toList := by
      rw [joined, String.toList_ofList]
      refine Text.split_join (by simpa using hnil) ?_
      intro piece hpiece
      obtain ⟨p, hp, rfl⟩ := List.mem_map.1 hpiece
      exact h.no_comma p hp
    rw [ofJoined, if_neg hne, hsplit, List.map_map]
    simp

theorem joined_ofJoined (s : String) : (ofJoined s).joined = s := by
  by_cases hs : s = ""
  · rw [hs]
    rfl
  · rw [ofJoined, if_neg hs, joined, List.map_map]
    simp [Function.comp_def, Text.join_split]

/-- Every mask that is read from a text is read back. -/
theorem ofJoined_plain (s : String) : (ofJoined s).Plain := by
  by_cases hs : s = ""
  · rw [hs]
    exact ⟨nofun, nofun⟩
  · rw [ofJoined, if_neg hs]
    constructor
    · intro p hp
      obtain ⟨piece, hpiece, rfl⟩ := List.mem_map.1 hp
      rw [String.toList_ofList]
      exact Text.not_mem_of_mem_split hpiece
    · intro hblank
      obtain ⟨piece, hpiece, hp⟩ := List.map_eq_singleton_iff.1 hblank
      have hjoin : Text.join ',' (Text.split ',' s.toList) = s.toList := Text.join_split s.toList
      have hempty : piece = [] := by simpa using congrArg String.toList hp
      rw [hpiece, hempty] at hjoin
      exact hs (String.toList_eq_nil_iff.1 hjoin.symm)

theorem ofNode_tree {m : FieldMask} (hm : ofJoined m.joined = m) {node : Node}
    (h : node.Is m.toJson.tree) : ofNode node = .ok m := by
  have htext : node.asTextFor .maskPaths = .ok m.joined := h.asTextFor _
  rw [ofNode, htext]
  exact congrArg Except.ok hm

theorem toJson_narrow (m : FieldMask) : m.toJson.Narrow := trivial

theorem plain_of_ofNode {m : FieldMask} {node : Node} (h : ofNode node = .ok m) : m.Plain := by
  obtain ⟨s, -, rfl⟩ := exists_of_map_eq_ok h
  exact ofJoined_plain s

theorem readsEdits {m : FieldMask} (hm : ofJoined m.joined = m) :
    ReadsEdits .plain (Node.asOption ofNode) m.toJson (some m) :=
  .plain trivial fun _ h => h.asOption nofun (ofNode_tree hm h)

end FieldMask

/-! ## Creation -/

namespace CreateRequest

def layout : Layout :=
  .record [
    ("parent", some (.text ""), .plain),
    ("subnet_id", some (.text ""), .plain),
    ("subnet", none, Subnet.layout)]

def entry : Field → Option Json.Value × Layout
  | .parent | .subnetId => (some (.text ""), .plain)
  | .subnet => (none, Subnet.layout)

def field (r : CreateRequest) : (f : Field) → f.Value
  | .parent => r.parent
  | .subnetId => r.subnetId
  | .subnet => r.subnet

def write (r : CreateRequest) : Field → Option Json.Value
  | .parent => some (.text r.parent)
  | .subnetId => some (.text r.subnetId)
  | .subnet => some r.subnet.toJson

theorem reads : shape.Reads .text ofNode field where
  ok_iff {node r} := by
    constructor
    · intro h
      obtain ⟨get, hread, h⟩ := exists_of_bind_eq_ok h
      obtain ⟨parent, hparent, h⟩ := exists_of_bind_eq_ok h
      obtain ⟨id, hid, h⟩ := exists_of_bind_eq_ok h
      obtain ⟨subnet, hsubnet, h⟩ := exists_of_bind_eq_ok h
      cases h
      refine ⟨get, hread, fun f => ?_⟩
      cases f
      case parent => exact hparent
      case subnetId => exact hid
      case subnet => exact hsubnet
    · rintro ⟨get, hread, hget⟩
      rw [ofNode, hread]
      simp only [bind, Except.bind, pure, Except.pure, hget]
      rfl

theorem regular : shape.Regular := ⟨fun f => by cases f <;> rfl, by decide⟩

theorem writes (r : CreateRequest) : shape.Writes .text entry r.write r.field where
  read {f v} h := by
    cases f <;> cases h
    case parent => exact Json.readsEdits_text r.parent
    case subnetId => exact Json.readsEdits_text r.subnetId
    case subnet => exact r.subnet.readsEdits .text
  fallback {f} h := by
    cases f <;> rcases h with h | h
    case parent.inr | subnetId.inr => exact congrArg some (Json.eq_empty_of_text h).symm
    all_goals cases h

theorem readsEdits (r : CreateRequest) : ReadsEdits layout ofNode r.toJson r := by
  exact Shape.readsEdits regular r.writes reads

theorem rejects : Rejects layout ofNode := by
  have hentry : ∀ f, Rejects (entry f).2 (shape.read f .text) := fun f => by
    cases f
    case subnet => exact Subnet.rejects .text
    all_goals exact .plain _
  refine Shape.rejects regular hentry (fun f h => ?_) reads
  cases f
  case subnet => rfl
  all_goals cases h

end CreateRequest

/-! ## Fetching -/

namespace GetRequest

def layout : Layout := .record [("name", none, .plain)]

def entry : Field → Option Json.Value × Layout
  | .name => (none, .plain)

def field (r : GetRequest) : (f : Field) → f.Value
  | .name => r.name

def write (r : GetRequest) : Field → Option Json.Value
  | .name => some (.text r.name)

theorem reads : shape.Reads .text ofNode field where
  ok_iff {node r} := by
    constructor
    · intro h
      obtain ⟨get, hread, h⟩ := exists_of_bind_eq_ok h
      obtain ⟨name, hname, h⟩ := exists_of_bind_eq_ok h
      cases h
      refine ⟨get, hread, fun f => ?_⟩
      cases f
      exact hname
    · rintro ⟨get, hread, hget⟩
      rw [ofNode, hread]
      simp only [bind, Except.bind, pure, Except.pure, hget]
      rfl

theorem regular : shape.Regular := ⟨fun f => by cases f; rfl, by decide⟩

theorem writes (r : GetRequest) : shape.Writes .text entry r.write r.field where
  read {f v} h := by
    cases f
    cases h
    exact Json.readsEdits_text r.name
  fallback {f} h := by
    cases f
    rcases h with h | h <;> cases h

theorem readsEdits (r : GetRequest) : ReadsEdits layout ofNode r.toJson r := by
  exact Shape.readsEdits regular r.writes reads

theorem rejects : Rejects layout ofNode := by
  have hentry : ∀ f, Rejects (entry f).2 (shape.read f .text) := fun f => by
    cases f
    exact .plain _
  exact Shape.rejects regular hentry (fun f _ => by cases f; rfl) reads

end GetRequest

/-! ## Updates -/

namespace UpdateRequest

def layout : Layout :=
  .record [
    ("subnet", none, Subnet.layout),
    ("update_mask", some .null, .plain),
    ("allow_missing", some (.boolean false), .plain)]

def entry : Field → Option Json.Value × Layout
  | .subnet => (none, Subnet.layout)
  | .updateMask => (some .null, .plain)
  | .allowMissing => (some (.boolean false), .plain)

def field (r : UpdateRequest) : (f : Field) → f.Value
  | .subnet => r.subnet
  | .updateMask => r.updateMask
  | .allowMissing => r.allowMissing

def write (r : UpdateRequest) : Field → Option Json.Value
  | .subnet => some r.subnet.toJson
  | .updateMask => r.updateMask.map FieldMask.toJson
  | .allowMissing => some (.boolean r.allowMissing)

theorem toJson_eq (r : UpdateRequest) :
    r.toJson = .object (shape.written r.write shape.fields) := by
  obtain ⟨subnet, _ | mask, missing⟩ := r <;> rfl

theorem reads : shape.Reads .text ofNode field where
  ok_iff {node r} := by
    constructor
    · intro h
      obtain ⟨get, hread, h⟩ := exists_of_bind_eq_ok h
      obtain ⟨subnet, hsubnet, h⟩ := exists_of_bind_eq_ok h
      obtain ⟨mask, hmask, h⟩ := exists_of_bind_eq_ok h
      obtain ⟨missing, hmissing, h⟩ := exists_of_bind_eq_ok h
      cases h
      refine ⟨get, hread, fun f => ?_⟩
      cases f
      case subnet => exact hsubnet
      case updateMask => exact hmask
      case allowMissing => exact hmissing
    · rintro ⟨get, hread, hget⟩
      rw [ofNode, hread]
      simp only [bind, Except.bind, pure, Except.pure, hget]
      rfl

theorem regular : shape.Regular := ⟨fun f => by cases f <;> rfl, by decide⟩

theorem writes {r : UpdateRequest}
    (hr : ∀ m, r.updateMask = some m → FieldMask.ofJoined m.joined = m) :
    shape.Writes .text entry r.write r.field where
  read {f v} h := by
    cases f
    case subnet =>
      cases h
      exact r.subnet.readsEdits .text
    case updateMask =>
      obtain ⟨m, hm, rfl⟩ := Option.map_eq_some_iff.1 h
      have hfield : r.field .updateMask = some m := hm
      rw [hfield]
      exact FieldMask.readsEdits (hr m hm)
    case allowMissing =>
      cases h
      exact Json.readsEdits_boolean r.allowMissing
  fallback {f} h := by
    cases f
    case subnet => rcases h with h | h <;> cases h
    case updateMask => exact congrArg some (Json.eq_none_of_unset nofun h).symm
    case allowMissing =>
      rcases h with h | h
      · cases h
      · exact congrArg some (Json.Value.boolean.inj (Option.some.inj h)).symm

theorem readsEdits {r : UpdateRequest}
    (hr : ∀ m, r.updateMask = some m → FieldMask.ofJoined m.joined = m) :
    ReadsEdits layout ofNode r.toJson r := by
  rw [toJson_eq]
  exact Shape.readsEdits regular (writes hr) reads

theorem rejects : Rejects layout ofNode := by
  have hentry : ∀ f, Rejects (entry f).2 (shape.read f .text) := fun f => by
    cases f
    case subnet => exact Subnet.rejects .text
    all_goals exact .plain _
  refine Shape.rejects regular hentry (fun f h => ?_) reads
  cases f
  case subnet => rfl
  all_goals cases h

/-- The mask, if there is one, is read back from its text. -/
def Plain (r : UpdateRequest) : Prop := ∀ m, r.updateMask = some m → m.Plain

/-- The mask of a request that was read is read back. -/
theorem plain_of_ofNode {r : UpdateRequest} {node : Node} (h : ofNode node = .ok r) : r.Plain := by
  obtain ⟨get, hread, hget⟩ := reads.ok_iff.1 h
  intro m hm
  have hmask : get .updateMask = .ok (some m) := hm ▸ hget .updateMask
  rcases shape.read?_cases hread hmask with ⟨part, hpart⟩ | hfallback
  · exact FieldMask.plain_of_ofNode (Node.eq_ok_of_asOption hpart)
  · cases hfallback

end UpdateRequest

/-! ## Deletion -/

namespace DeleteRequest

def layout : Layout :=
  .record [("name", none, .plain), ("allow_missing", some (.boolean false), .plain)]

def entry : Field → Option Json.Value × Layout
  | .name => (none, .plain)
  | .allowMissing => (some (.boolean false), .plain)

def field (r : DeleteRequest) : (f : Field) → f.Value
  | .name => r.name
  | .allowMissing => r.allowMissing

def write (r : DeleteRequest) : Field → Option Json.Value
  | .name => some (.text r.name)
  | .allowMissing => some (.boolean r.allowMissing)

theorem reads : shape.Reads .text ofNode field where
  ok_iff {node r} := by
    constructor
    · intro h
      obtain ⟨get, hread, h⟩ := exists_of_bind_eq_ok h
      obtain ⟨name, hname, h⟩ := exists_of_bind_eq_ok h
      obtain ⟨missing, hmissing, h⟩ := exists_of_bind_eq_ok h
      cases h
      refine ⟨get, hread, fun f => ?_⟩
      cases f
      case name => exact hname
      case allowMissing => exact hmissing
    · rintro ⟨get, hread, hget⟩
      rw [ofNode, hread]
      simp only [bind, Except.bind, pure, Except.pure, hget]
      rfl

theorem regular : shape.Regular := ⟨fun f => by cases f <;> rfl, by decide⟩

theorem writes (r : DeleteRequest) : shape.Writes .text entry r.write r.field where
  read {f v} h := by
    cases f <;> cases h
    case name => exact Json.readsEdits_text r.name
    case allowMissing => exact Json.readsEdits_boolean r.allowMissing
  fallback {f} h := by
    cases f <;> rcases h with h | h
    case allowMissing.inr =>
      exact congrArg some (Json.Value.boolean.inj (Option.some.inj h)).symm
    all_goals cases h

theorem readsEdits (r : DeleteRequest) : ReadsEdits layout ofNode r.toJson r := by
  exact Shape.readsEdits regular r.writes reads

theorem rejects : Rejects layout ofNode := by
  have hentry : ∀ f, Rejects (entry f).2 (shape.read f .text) := fun f => by
    cases f <;> exact .plain _
  refine Shape.rejects regular hentry (fun f h => ?_) reads
  cases f
  case name => rfl
  case allowMissing => cases h

end DeleteRequest

end SubnetRegistry
