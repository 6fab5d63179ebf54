import SubnetRegistry.Proofs.Wire.Subnet
import SubnetRegistry.Wire.Response

/-!
# Replies are read as they are written

The variant of a reply is found by its tag, and what is set aside is read as the variant's fields. The
first pass asks that no member be too deep, which holds of all that is written.

## Main definitions

* `Json.Value.depth` — the number of containers inside each other.

## Main statements

* `Response.split_tree` — the first pass over a reply that was written.
* `Response.ofNode_tree` — a reply is read as it was written.
-/
namespace SubnetRegistry

open Json (Node Member Origin Shape Fault Tree)

/-! ## Classes of error -/

theorem ErrorKind.ofNode_tree (k : ErrorKind) {o : Origin} {node : Node}
    (h : node.Is k.toJson.tree) : ErrorKind.ofNode o node = .ok k := by
  cases h with
  | text _ start stop =>
    show ErrorKind.ofName stop k.text = _
    rw [ErrorKind.ofName, ErrorKind.ofText?_text]

theorem ErrorKind.toJson_narrow (k : ErrorKind) : k.toJson.Narrow := trivial

/-! ## Depth -/

namespace Json

mutual

/-- The number of containers inside each other. -/
def Value.depth : Value → Nat
  | .null | .boolean _ | .integer _ | .text _ => 0
  | .array items => Value.itemsDepth items + 1
  | .object members => Value.membersDepth members + 1

def Value.itemsDepth : List Value → Nat
  | [] => 0
  | v :: rest => max v.depth (Value.itemsDepth rest)

def Value.membersDepth : List (String × Value) → Nat
  | [] => 0
  | (_, v) :: rest => max v.depth (Value.membersDepth rest)

end

mutual

/-- A part with the tree of a value passes where there is room for it. -/
theorem Value.check : (v : Value) → {node : Node} → {room : Nat} → node.Is v.tree →
    v.depth ≤ room → node.check room = .ok ()
  | .null, _, _, .null _ _, _ => by rw [Node.check]
  | .boolean _, _, _, .boolean _ _ _, _ => by rw [Node.check]
  | .integer _, _, _, .number _ _ _, _ => by
    rw [Node.check]
    rfl
  | .text _, _, _, .text _ _ _, _ => by
    rw [Node.check]
    rfl
  | .array items, _, 0, .array _ _ _, hroom => absurd hroom (Nat.not_succ_le_zero _)
  | .array items, _, room + 1, .array hs _ _, hroom => by
    rw [Node.check, Value.checkItems items hs (Nat.le_of_succ_le_succ hroom)]
    rfl
  | .object members, _, 0, .object _ _ _, hroom => absurd hroom (Nat.not_succ_le_zero _)
  | .object members, _, room + 1, .object hs _ _, hroom => by
    rw [Node.check, Value.checkMembers members hs (Nat.le_of_succ_le_succ hroom)]
    rfl

theorem Value.checkItems : (items : List Value) → {nodes : List Node} → {room : Nat} →
    Node.Are nodes (Value.itemTrees items) → Value.itemsDepth items ≤ room →
    Node.checkItems nodes room = .ok ()
  | [], _, _, .nil, _ => rfl
  | v :: rest, _, room, .cons h hs, hroom => by
    obtain ⟨hv, hrest⟩ := Nat.max_le.1 hroom
    rw [Node.checkItems, Value.check v h hv]
    exact Value.checkItems rest hs hrest

theorem Value.checkMembers : (members : List (String × Value)) → {ms : List Member} →
    {room : Nat} → Member.Are ms (Value.memberTrees members) →
    Value.membersDepth members ≤ room → Node.checkMembers ms room = .ok ()
  | [], _, _, .nil, _ => rfl
  | (_, v) :: rest, _, room, .cons h hs, hroom => by
    obtain ⟨hv, hrest⟩ := Nat.max_le.1 hroom
    rw [Node.checkMembers, Member.check, Value.check v h hv]
    exact Value.checkMembers rest hs hrest

end

end Json

namespace Json.Value

theorem itemsDepth_map {α : Type} {f : α → Value} {as : List α} {n : Nat}
    (h : ∀ a ∈ as, (f a).depth ≤ n) : itemsDepth (as.map f) ≤ n := by
  induction as with
  | nil => exact Nat.zero_le _
  | cons a as ih =>
    exact Nat.max_le.2 ⟨h a (by simp), ih fun b hb => h b (List.mem_cons_of_mem _ hb)⟩

theorem membersDepth_append {ms ns : List (String × Value)} {n : Nat} (hm : membersDepth ms ≤ n)
    (hn : membersDepth ns ≤ n) : membersDepth (ms ++ ns) ≤ n := by
  induction ms with
  | nil => exact hn
  | cons m ms ih =>
    obtain ⟨hhead, htail⟩ := Nat.max_le.1 hm
    exact Nat.max_le.2 ⟨hhead, ih htail⟩

theorem depth_optionalMember {name : String} {v? : Option Value} {n : Nat}
    (h : ∀ v, v? = some v → v.depth ≤ n) : membersDepth (optionalMember name v?) ≤ n := by
  cases v? with
  | none => exact Nat.zero_le _
  | some v => exact Nat.max_le.2 ⟨h v rfl, Nat.zero_le _⟩

end Json.Value

theorem SubnetSpec.depth_toJson (s : SubnetSpec) : s.toJson.depth ≤ 2 := by
  have hrange : s.prefixJson.depth ≤ 1 := by
    rw [SubnetSpec.prefixJson]
    cases s.v4Prefix with
    | none => exact Nat.zero_le 1
    | some p => exact Nat.le_refl 1
  have hmac : Json.Value.itemsDepth (s.virtualRouterMac.map fun b => .integer b.toNat) ≤ 0 :=
    Json.Value.itemsDepth_map fun _ _ => Nat.le_refl 0
  refine Nat.succ_le_succ ?_
  refine Nat.max_le.2 ⟨Nat.zero_le _, Nat.max_le.2 ⟨hrange, Nat.max_le.2 ⟨Nat.zero_le _, ?_⟩⟩⟩
  exact Nat.max_le.2 ⟨Nat.succ_le_succ hmac, Nat.zero_le 1⟩

theorem SubnetStatus.depth_toJson (s : SubnetStatus) : s.toJson.depth = 1 := rfl

theorem Subnet.depth_toJson (s : Subnet) : s.toJson.depth ≤ 3 := by
  refine Nat.succ_le_succ (Nat.max_le.2 ⟨Nat.zero_le _, Json.Value.membersDepth_append ?_ ?_⟩)
  · refine Json.Value.depth_optionalMember fun v hv => ?_
    obtain ⟨spec, -, rfl⟩ := Option.map_eq_some_iff.1 hv
    exact spec.depth_toJson
  · refine Json.Value.depth_optionalMember fun v hv => ?_
    obtain ⟨status, -, rfl⟩ := Option.map_eq_some_iff.1 hv
    exact Nat.le_of_lt (status.depth_toJson ▸ by decide)

/-! ## The first pass -/

namespace Response

theorem Variant.ofNode_tree (v : Variant) {node : Node} (h : node.Is (.text (.ok v.text))) :
    Variant.ofNode node = .ok v := by
  cases h
  cases v <;> rfl

/-- Members of other names are set aside. -/
theorem foldlM_add {others : List (String × Json.Value)} (hkeys : ∀ m ∈ others, m.1 ≠ tag)
    (hdepth : Json.Value.membersDepth others ≤ room) {ms : List Member}
    (hms : Member.Are ms (Json.Value.memberTrees others)) (sought : Sought) :
    ms.foldlM Sought.add sought = .ok { sought with others := ms.reverse ++ sought.others } := by
  induction others generalizing ms sought with
  | nil =>
    cases hms
    rfl
  | cons m others ih =>
    obtain ⟨hv, hrest⟩ := Nat.max_le.1 hdepth
    cases hms with
    | @cons _ stop settled node _ next ms _ hnode hms =>
      have hadd : sought.add (.mk ⟨.ok m.1, .ok (), stop, settled, .ok ()⟩ node next) =
          .ok { sought with
            others := .mk ⟨.ok m.1, .ok (), stop, settled, .ok ()⟩ node next :: sought.others } := by
        have hcheck := Json.Value.check m.2 hnode hv
        simp only [Sought.add, Member.key, Member.value, bind, Except.bind, hcheck,
          if_neg (hkeys m (by simp))]
        rfl
      rw [List.foldlM_cons, hadd]
      show ms.foldlM Sought.add _ = _
      rw [ih (fun n hn => hkeys n (List.mem_cons_of_mem _ hn)) hrest hms]
      simp

/-- A reply that was written is split into its variant and its other members. -/
theorem split_tree {v : Variant} {others : List (String × Json.Value)}
    (hkeys : ∀ m ∈ others, m.1 ≠ tag) (hdepth : Json.Value.membersDepth others ≤ room)
    {node : Node} (h : node.Is (Json.Value.object ((tag, .text v.text) :: others)).tree) :
    ∃ rest : Node, split node = .ok (v, rest) ∧
      rest.Is (.object (Json.Value.memberTrees others)) := by
  cases h with
  | object hms start stop =>
    cases hms with
    | @cons _ keyStop settled first _ next ms _ hfirst hms =>
      have hadd : Sought.add ⟨none, []⟩ (.mk ⟨.ok tag, .ok (), keyStop, settled, .ok ()⟩ first next) =
          .ok ⟨some v, []⟩ := by
        simp only [Sought.add, Member.key, Member.value, bind, Except.bind, if_true,
          Option.isSome_none, Bool.false_eq_true, if_false, Variant.ofNode_tree v hfirst]
        rfl
      refine ⟨.object ms (.closed stop) start, ?_, .object hms start stop⟩
      rw [split, List.foldlM_cons, hadd]
      show (do
        let sought ← ms.foldlM Sought.add ⟨some v, []⟩
        _) = _
      rw [foldlM_add hkeys hdepth hms]
      simp [bind, Except.bind, pure, Except.pure, Json.Ending.readObject]

/-! ## The second pass -/

def SubnetField.of (s : Subnet) : (f : SubnetField) → f.Value
  | .subnet => s

def ErrorField.of (kind : ErrorKind) (message : String) : (f : ErrorField) → f.Value
  | .kind => kind
  | .message => message

def InvalidField.of (message : String) : (f : InvalidField) → f.Value
  | .message => message

theorem ofKept_subnet (s : Subnet) {node : Node}
    (h : node.Is (.object (Json.Value.memberTrees [("subnet", s.toJson)]))) :
    ofKept .subnet node = .ok (.subnet s) := by
  have hholds : subnetShape.Holds .kept (SubnetField.of s)
      (Json.Value.memberTrees [("subnet", s.toJson)]) [.subnet] :=
    .field rfl (fun _ h => s.ofNode_tree h) (by decide) .nil
  obtain ⟨get, hread, hget⟩ := Shape.read?_object h hholds (by
    intro f hf
    cases f
    simp at hf)
  rw [ofKept, hread]
  simp only [bind, Except.bind, pure, Except.pure, hget]
  rfl

theorem ofKept_error (kind : ErrorKind) (message : String) {node : Node}
    (h : node.Is (.object
      (Json.Value.memberTrees [("kind", kind.toJson), ("message", .text message)]))) :
    ofKept .error node = .ok (.error kind message) := by
  have hholds : errorShape.Holds .kept (ErrorField.of kind message)
      (Json.Value.memberTrees [("kind", kind.toJson), ("message", .text message)])
      [.kind, .message] := by
    refine .field rfl (fun _ h => kind.ofNode_tree h) (by decide) ?_
    exact .field rfl (fun _ h => h.asText) (by decide) .nil
  obtain ⟨get, hread, hget⟩ := Shape.read?_object h hholds (by
    intro f hf
    cases f <;> simp at hf)
  rw [ofKept, hread]
  simp only [bind, Except.bind, pure, Except.pure, hget]
  rfl

theorem ofKept_invalidRequest (message : String) {node : Node}
    (h : node.Is (.object (Json.Value.memberTrees [("message", .text message)]))) :
    ofKept .invalidRequest node = .ok (.invalidRequest message) := by
  have hholds : invalidShape.Holds .kept (InvalidField.of message)
      (Json.Value.memberTrees [("message", .text message)]) [.message] :=
    .field rfl (fun _ h => h.asText) (by decide) .nil
  obtain ⟨get, hread, hget⟩ := Shape.read?_object h hholds (by
    intro f hf
    cases f
    simp at hf)
  rw [ofKept, hread]
  simp only [bind, Except.bind, pure, Except.pure, hget]
  rfl

/-! ## Both passes -/

def variant : Response → Variant
  | .subnet _ => .subnet
  | .empty => .empty
  | .error .. => .error
  | .invalidRequest _ => .invalidRequest

/-- The members of a reply after its tag. -/
def othersJson : Response → List (String × Json.Value)
  | .subnet s => [("subnet", s.toJson)]
  | .empty => []
  | .error kind message => [("kind", kind.toJson), ("message", .text message)]
  | .invalidRequest message => [("message", .text message)]

theorem toJson_eq (r : Response) :
    r.toJson = .object ((tag, .text r.variant.text) :: r.othersJson) := by
  cases r <;> rfl

theorem ne_tag_of_mem_othersJson (r : Response) : ∀ m ∈ r.othersJson, m.1 ≠ tag := by
  cases r <;> simp [othersJson, tag]

theorem depth_othersJson (r : Response) : Json.Value.membersDepth r.othersJson ≤ room := by
  cases r with
  | subnet s =>
    have hs := s.depth_toJson
    exact Nat.max_le.2 ⟨Nat.le_trans hs (by decide), Nat.zero_le _⟩
  | empty | error | invalidRequest => exact Nat.zero_le _

/-- A reply is read as it was written. -/
theorem ofNode_tree (r : Response) {node : Node} (h : node.Is r.toJson.tree) :
    ofNode node = .ok r := by
  rw [toJson_eq] at h
  obtain ⟨rest, hsplit, hrest⟩ := split_tree r.ne_tag_of_mem_othersJson r.depth_othersJson h
  have hkept : ofKept r.variant rest = .ok r := by
    cases r with
    | subnet s => exact ofKept_subnet s hrest
    | empty =>
      cases hrest
      rfl
    | error kind message => exact ofKept_error kind message hrest
    | invalidRequest message => exact ofKept_invalidRequest message hrest
  rw [ofNode, hsplit]
  show (ofKept r.variant rest).mapError _ = _
  rw [hkept]
  rfl

theorem toJson_narrow (r : Response) : r.toJson.Narrow := by
  cases r with
  | subnet s => exact ⟨trivial, s.toJson_narrow, trivial⟩
  | empty => exact ⟨trivial, trivial⟩
  | error => exact ⟨trivial, trivial, trivial, trivial⟩
  | invalidRequest => exact ⟨trivial, trivial, trivial⟩

end Response
end SubnetRegistry
