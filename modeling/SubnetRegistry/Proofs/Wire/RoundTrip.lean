import SubnetRegistry.Proofs.Wire.Request
import SubnetRegistry.Proofs.Wire.Response

/-!
# Round trips

Whatever is written as JSON is read back as it was, of every type that goes over the wire. A text that
is read may be another than the one that is written for its value, but the value stays.

## Main definitions

* `ReadsBack` — the text of a value is read as that value.
* `Settles` — every value that is read from a text is read back.

## Main statements

* `wire_round_trip` — the two of all types on the wire.
-/
namespace SubnetRegistry

open Json (Node Fault)

variable {α : Type} {write : α → Json.Value} {read : Node → Except Fault α}

/-- The text of a value is read as that value. -/
def ReadsBack (write : α → Json.Value) (read : Node → Except Fault α) (a : α) : Prop :=
  Json.decode read (write a).bytes = .ok a

/-- Every value that is read from a text is read back. -/
def Settles (write : α → Json.Value) (read : Node → Except Fault α) : Prop :=
  ∀ bytes a, Json.decode read bytes = .ok a → ReadsBack write read a

theorem Settles.of_forall (h : ∀ a, ReadsBack write read a) : Settles write read :=
  fun _ a _ => h a

/-- The text of a value is one of its edits. -/
theorem ReadsBack.of_readsEdits {layout : Json.Layout} {a : α}
    (h : Json.ReadsEdits layout read (write a) a) : ReadsBack write read a :=
  h.decode h.document (write a).spaced

/-- Different values have different texts. -/
theorem ReadsBack.bytes_ne {a b : α} (ha : ReadsBack write read a)
    (hb : ReadsBack write read b) (hab : a ≠ b) : (write a).bytes ≠ (write b).bytes := by
  intro h
  have hread : Json.decode read (write a).bytes = .ok b := by
    rw [h]
    exact hb
  exact hab (Except.ok.inj (ha.symm.trans hread))

/-! ## The types on the wire -/

theorem Ipv4Prefix.readsBack (p : Ipv4Prefix) : ReadsBack toJson (ofNode .text) p :=
  .of_readsEdits (p.readsEdits .text)

theorem SubnetSpec.readsBack (s : SubnetSpec) : ReadsBack toJson (ofNode .text) s :=
  .of_readsEdits (s.readsEdits .text)

theorem SubnetStatus.readsBack (s : SubnetStatus) : ReadsBack toJson (ofNode .text) s :=
  .of_readsEdits (s.readsEdits .text)

theorem Subnet.readsBack (s : Subnet) : ReadsBack toJson (ofNode .text) s :=
  .of_readsEdits (s.readsEdits .text)

theorem FieldMask.readsBack {m : FieldMask} (hm : m.Plain) : ReadsBack toJson ofNode m :=
  Json.decode_bytes m.toJson_narrow fun _ h => ofNode_tree (ofJoined_joined hm) h

theorem CreateRequest.readsBack (r : CreateRequest) : ReadsBack toJson ofNode r :=
  .of_readsEdits r.readsEdits

theorem GetRequest.readsBack (r : GetRequest) : ReadsBack toJson ofNode r :=
  .of_readsEdits r.readsEdits

theorem UpdateRequest.readsBack {r : UpdateRequest} (hr : r.Plain) : ReadsBack toJson ofNode r :=
  .of_readsEdits (readsEdits fun m hm => FieldMask.ofJoined_joined (hr m hm))

theorem DeleteRequest.readsBack (r : DeleteRequest) : ReadsBack toJson ofNode r :=
  .of_readsEdits r.readsEdits

theorem ErrorKind.readsBack (k : ErrorKind) : ReadsBack toJson (ofNode .text) k :=
  Json.decode_bytes k.toJson_narrow fun _ h => k.ofNode_tree h

theorem Response.readsBack (r : Response) : ReadsBack toJson ofNode r :=
  Json.decode_bytes r.toJson_narrow fun _ h => r.ofNode_tree h

theorem FieldMask.settles : Settles toJson ofNode := by
  intro bytes m h
  obtain ⟨node, hnode⟩ := Json.exists_node_of_decode h
  exact readsBack (plain_of_ofNode hnode)

theorem UpdateRequest.settles : Settles toJson ofNode := by
  intro bytes r h
  obtain ⟨node, hnode⟩ := Json.exists_node_of_decode h
  exact readsBack (plain_of_ofNode hnode)

/-- Values of all types on the wire are read back, those with a mask where the mask is; an unset part
and a part of defaults are different texts, and so are no mask and a mask without paths. Values that
were read are read back, whatever their masks. -/
theorem wire_round_trip :
    ((∀ p, ReadsBack Ipv4Prefix.toJson (Ipv4Prefix.ofNode .text) p) ∧
      (∀ s, ReadsBack SubnetSpec.toJson (SubnetSpec.ofNode .text) s) ∧
      (∀ s, ReadsBack SubnetStatus.toJson (SubnetStatus.ofNode .text) s) ∧
      (∀ s, ReadsBack Subnet.toJson (Subnet.ofNode .text) s) ∧
      (∀ r, ReadsBack CreateRequest.toJson CreateRequest.ofNode r) ∧
      (∀ r, ReadsBack GetRequest.toJson GetRequest.ofNode r) ∧
      (∀ r : UpdateRequest, (∀ m, r.updateMask = some m →
          (∀ p ∈ m.paths, ',' ∉ p.toList) ∧ m.paths ≠ [""]) →
        ReadsBack UpdateRequest.toJson UpdateRequest.ofNode r) ∧
      (∀ r, ReadsBack DeleteRequest.toJson DeleteRequest.ofNode r) ∧
      (∀ k, ReadsBack ErrorKind.toJson (ErrorKind.ofNode .text) k) ∧
      (∀ r, ReadsBack Response.toJson Response.ofNode r)) ∧
    ((∀ s : Subnet, { s with spec := none }.toJson.bytes ≠ { s with spec := some {} }.toJson.bytes) ∧
      (∀ s : Subnet,
        { s with status := none }.toJson.bytes ≠ { s with status := some {} }.toJson.bytes) ∧
      (∀ s : SubnetSpec,
        { s with v4Prefix := none }.toJson.bytes ≠ { s with v4Prefix := some {} }.toJson.bytes) ∧
      (∀ r : UpdateRequest,
        { r with updateMask := none }.toJson.bytes ≠
          { r with updateMask := some ⟨[]⟩ }.toJson.bytes)) ∧
    Settles Ipv4Prefix.toJson (Ipv4Prefix.ofNode .text) ∧
    Settles SubnetSpec.toJson (SubnetSpec.ofNode .text) ∧
    Settles SubnetStatus.toJson (SubnetStatus.ofNode .text) ∧
    Settles Subnet.toJson (Subnet.ofNode .text) ∧
    Settles CreateRequest.toJson CreateRequest.ofNode ∧
    Settles GetRequest.toJson GetRequest.ofNode ∧
    Settles UpdateRequest.toJson UpdateRequest.ofNode ∧
    Settles DeleteRequest.toJson DeleteRequest.ofNode ∧
    Settles ErrorKind.toJson (ErrorKind.ofNode .text) ∧
    Settles Response.toJson Response.ofNode ∧
    Settles FieldMask.toJson FieldMask.ofNode := by
  refine ⟨⟨Ipv4Prefix.readsBack, SubnetSpec.readsBack, SubnetStatus.readsBack, Subnet.readsBack,
    CreateRequest.readsBack, GetRequest.readsBack, ?_, DeleteRequest.readsBack, ErrorKind.readsBack,
    Response.readsBack⟩, ⟨?_, ?_, ?_, ?_⟩, .of_forall Ipv4Prefix.readsBack,
    .of_forall SubnetSpec.readsBack, .of_forall SubnetStatus.readsBack, .of_forall Subnet.readsBack,
    .of_forall CreateRequest.readsBack, .of_forall GetRequest.readsBack, UpdateRequest.settles,
    .of_forall DeleteRequest.readsBack, .of_forall ErrorKind.readsBack,
    .of_forall Response.readsBack, FieldMask.settles⟩
  · intro r hr
    exact UpdateRequest.readsBack fun m hm => ⟨(hr m hm).1, (hr m hm).2⟩
  · intro s
    exact (Subnet.readsBack _).bytes_ne (Subnet.readsBack _) (by simp)
  · intro s
    exact (Subnet.readsBack _).bytes_ne (Subnet.readsBack _) (by simp)
  · intro s
    exact (SubnetSpec.readsBack _).bytes_ne (SubnetSpec.readsBack _) (by simp)
  · intro r
    have hnone : UpdateRequest.Plain { r with updateMask := none } := nofun
    have hempty : UpdateRequest.Plain { r with updateMask := some ⟨[]⟩ } := by
      rintro m ⟨⟩
      exact ⟨nofun, nofun⟩
    exact (UpdateRequest.readsBack hnone).bytes_ne (UpdateRequest.readsBack hempty) (by simp)

/-- An update with a mask of two paths. -/
def maskedUpdate : UpdateRequest :=
  ⟨{ name := "subnets/a", spec := some {} }, some ⟨["spec", "status.hw_index"]⟩, true⟩

theorem wire_round_trip_masked :
    (∀ m, maskedUpdate.updateMask = some m →
        (∀ p ∈ m.paths, ',' ∉ p.toList) ∧ m.paths ≠ [""]) ∧
      ReadsBack UpdateRequest.toJson UpdateRequest.ofNode maskedUpdate := by
  have h : ∀ m, maskedUpdate.updateMask = some m →
      (∀ p ∈ m.paths, ',' ∉ p.toList) ∧ m.paths ≠ [""] := by
    rintro m ⟨⟩
    decide
  exact ⟨h, wire_round_trip.1.2.2.2.2.2.2.1 maskedUpdate h⟩

end SubnetRegistry
