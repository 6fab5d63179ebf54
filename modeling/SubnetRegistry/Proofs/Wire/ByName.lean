import SubnetRegistry.Proofs.Handler

/-!
# Texts are read by the names of their members

Every text that says the same as the text of a subnet or of a request is read as that subnet or request,
and a broken text is not read at all.

## Main definitions

* `Operation.layout` — the layout of a request of an operation.

## Main statements

* `Request.read_by_name` — both, for subnets and for the requests of every operation.
-/
namespace SubnetRegistry

open Json (Node Fault Layout Edits Broken ReadsEdits Rejects)

/-! ## Requests of all operations -/

def Operation.layout : Operation → Layout
  | .create => CreateRequest.layout
  | .get => GetRequest.layout
  | .update => UpdateRequest.layout
  | .delete => DeleteRequest.layout

section

variable {r : Request}

/-- The text of a request is one of its edits. -/
theorem Request.edits_document
    (hr : ∀ u m, r = .update u → u.updateMask = some m → FieldMask.ofJoined m.joined = m) :
    Edits r.operation.layout r.toJson r.toJson.document := by
  cases r with
  | create r => exact r.readsEdits.document
  | get r => exact r.readsEdits.document
  | update r => exact (UpdateRequest.readsEdits fun m => hr r m rfl).document
  | delete r => exact r.readsEdits.document

/-- A request is read from every edit of its text. -/
theorem Request.ofBytes_edits
    (hr : ∀ u m, r = .update u → u.updateMask = some m → FieldMask.ofJoined m.joined = m)
    {d : Json.Document} {bytes : List UInt8} (hd : Edits r.operation.layout r.toJson d)
    (hbytes : Json.Spaced d.pieces bytes) : ofBytes r.operation bytes = .ok r := by
  cases r with
  | create r => exact Json.decodeText_of_ok (r.readsEdits.decode hd hbytes) _ _
  | get r => exact Json.decodeText_of_ok (r.readsEdits.decode hd hbytes) _ _
  | update r =>
    have hread := UpdateRequest.readsEdits fun m => hr r m rfl
    exact Json.decodeText_of_ok (hread.decode hd hbytes) _ _
  | delete r => exact Json.decodeText_of_ok (r.readsEdits.decode hd hbytes) _ _

end

/-- No request is read from a broken text. -/
theorem Request.ofBytes_broken {op : Operation} {d : Json.Document} {bytes : List UInt8}
    (hd : Broken op.layout d) (hbytes : Json.Spaced d.pieces bytes) :
    ∃ e, ofBytes op bytes = .error e := by
  cases op with
  | create => exact Json.decodeText_of_error (CreateRequest.rejects.decode hd hbytes) _ _
  | get => exact Json.decodeText_of_error (GetRequest.rejects.decode hd hbytes) _ _
  | update => exact Json.decodeText_of_error (UpdateRequest.rejects.decode hd hbytes) _ _
  | delete => exact Json.decodeText_of_error (DeleteRequest.rejects.decode hd hbytes) _ _

/-- Subnets and requests are read by the names of their members. The text of a subnet or a request is
one of its edits, and every edit is read as that subnet or request: its members may stand in any order,
with white space and members of other names among them, and without those that may be absent and hold
their default. No text is read in which an object has a member twice or lacks one that must be there. -/
theorem Request.read_by_name :
    (∀ s : Subnet,
      (Edits Subnet.layout s.toJson s.toJson.document ∧
        Json.Spaced s.toJson.document.pieces s.toJson.bytes) ∧
      ∀ d bytes, Edits Subnet.layout s.toJson d → Json.Spaced d.pieces bytes →
        Json.decode (Subnet.ofNode .text) bytes = .ok s) ∧
    (∀ r : Request,
      (∀ u m, r = .update u → u.updateMask = some m → FieldMask.ofJoined m.joined = m) →
      (Edits r.operation.layout r.toJson r.toJson.document ∧
        Json.Spaced r.toJson.document.pieces r.toJson.bytes) ∧
      ∀ d bytes, Edits r.operation.layout r.toJson d → Json.Spaced d.pieces bytes →
        Request.ofBytes r.operation bytes = .ok r) ∧
    (∀ d bytes, Broken Subnet.layout d → Json.Spaced d.pieces bytes →
      ∃ fault, Json.decode (Subnet.ofNode .text) bytes = .error fault) ∧
    ∀ (op : Operation) (d bytes), Broken op.layout d → Json.Spaced d.pieces bytes →
      ∃ e, Request.ofBytes op bytes = .error e := by
  refine ⟨fun s => ?_, fun r hr => ?_, fun d bytes => ?_, fun op d bytes => ?_⟩
  · have hread := s.readsEdits .text
    exact ⟨⟨hread.document, s.toJson.spaced⟩, fun d bytes => hread.decode⟩
  · exact ⟨⟨Request.edits_document hr, r.toJson.spaced⟩, fun d bytes => Request.ofBytes_edits hr⟩
  · exact (Subnet.rejects .text).decode
  · exact Request.ofBytes_broken

/-- The text `{"x":1e-5,"status":{}}`. -/
def sparseSubnet : Json.Document :=
  .object [
    (Json.Glyph.ofText "x", .number ⟨false, 1, none, some ⟨false, some true, ⟨5, []⟩⟩⟩),
    (Json.Glyph.ofText "status", .object [])]

/-- The text says that the status is set, and no more. -/
theorem edits_sparseSubnet :
    Edits Subnet.layout { status := some {} : Subnet }.toJson sparseSubnet := by
  have hstatus : Edits SubnetStatus.layout (SubnetStatus.toJson {}) (.object []) := by
    refine @Edits.record _ _ [] [] [] ?_ nofun .nil
    exact .drop (.head _) (.drop (.tail _ (.head _)) (.nil _))
  refine @Edits.record _ _ [(Json.Glyph.ofText "status", .object [])] [_] _ ?_ (fun m hm => ?_)
    (.swap ..)
  · exact .drop (.head _) (.keep (.tail _ (.tail _ (.head _))) hstatus (.nil _))
  · obtain rfl := List.mem_singleton.1 hm
    exact ⟨"x", Json.Glyph.denoted?_ofText "x", by decide⟩

/-- The text `{"update_mask":"spec","subnet":{"x":1e-5,"status":{}}}`. -/
def sparseUpdate : Json.Document :=
  .object [
    (Json.Glyph.ofText "update_mask", .text (Json.Glyph.ofText "spec")),
    (Json.Glyph.ofText "subnet", sparseSubnet)]

theorem edits_sparseUpdate : Edits UpdateRequest.layout
    (UpdateRequest.toJson ⟨{ status := some {} }, some ⟨["spec"]⟩, false⟩) sparseUpdate := by
  refine @Edits.record _ _ [_, _] [] _ ?_ nofun (.swap ..)
  exact .keep (.head _) edits_sparseSubnet <| .keep (.tail _ (.head _)) (.plain (.text "spec")) <|
    .drop (.tail _ (.tail _ (.head _))) (.nil _)

/-- The text `{"status":{"hw_index":null,"hw_index":1}}`. -/
def doubledStatus : Json.Document :=
  .object [(Json.Glyph.ofText "status", .object [
    (Json.Glyph.ofText "hw_index", .null),
    (Json.Glyph.ofText "hw_index", .number (.ofInt 1))])]

theorem broken_doubledStatus : Broken Subnet.layout doubledStatus := by
  refine .member (.tail _ (.tail _ (.head _))) (.head _) (Json.Glyph.denoted?_ofText _) ?_
  exact .twice (.head _) (Json.Glyph.denoted?_ofText _) (Json.Glyph.denoted?_ofText _) (.refl _)

/-- A subnet and an update are read from texts with white space before every word, members in another
order and members left out; a status with a member twice and an empty object are not. -/
theorem Request.read_by_name_sparse :
    (Edits Subnet.layout { status := some {} : Subnet }.toJson sparseSubnet ∧
      Json.decode (Subnet.ofNode .text) (sparseSubnet.pieces.flatMap fun p => [10, 32] ++ p.bytes) =
        .ok { status := some {} }) ∧
    (FieldMask.ofJoined (FieldMask.joined ⟨["spec"]⟩) = ⟨["spec"]⟩ ∧
      Request.ofBytes .update (sparseUpdate.pieces.flatMap fun p => [10, 32] ++ p.bytes) =
        .ok (.update ⟨{ status := some {} }, some ⟨["spec"]⟩, false⟩)) ∧
    (Broken Subnet.layout doubledStatus ∧ ∃ fault, Json.decode (Subnet.ofNode .text)
      (doubledStatus.pieces.flatMap fun p => [10, 32] ++ p.bytes) = .error fault) ∧
    (Broken (Operation.layout .get) (.object []) ∧
      ∃ e, Request.ofBytes .get [123, 125] = .error e) := by
  have hspaced : ∀ ps, Json.Spaced ps (ps.flatMap fun p => [10, 32] ++ p.bytes) :=
    Json.spaced_flatMap (by simp [Json.blanks])
  have hmask : FieldMask.ofJoined (FieldMask.joined ⟨["spec"]⟩) = ⟨["spec"]⟩ :=
    FieldMask.ofJoined_joined ⟨by decide, by decide⟩
  have hempty : Broken (Operation.layout .get) (.object []) :=
    .missing (.head _) (List.forall_mem_nil _)
  obtain ⟨hsubnet, hrequest, hnosubnet, hnorequest⟩ := Request.read_by_name
  refine ⟨⟨edits_sparseSubnet, (hsubnet _).2 _ _ edits_sparseSubnet (hspaced _)⟩, ⟨hmask, ?_⟩,
    ⟨broken_doubledStatus, hnosubnet _ _ broken_doubledStatus (hspaced _)⟩, hempty, ?_⟩
  · refine (hrequest (.update _) ?_).2 _ _ edits_sparseUpdate (hspaced _)
    rintro u m ⟨⟩ ⟨⟩
    exact hmask
  · exact hnorequest .get _ _ hempty (Json.spaced_flatMap (List.forall_mem_nil _) _)

end SubnetRegistry
