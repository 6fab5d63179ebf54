import SubnetRegistry.Proofs.Handler
import SubnetRegistry.Proofs.Mask.Resolve
import SubnetRegistry.Proofs.Text

/-!
# Masks on the wire

A mask is written as its paths with commas between them. So it is read back if it can be told from
this text: if no path has a comma, and the mask is not one empty path, which is written like no path at
all. Masks that name fields are of this kind.

## Main statements

* `FieldMask.joined_eq_intercalate` — the text of a mask.
* `FieldMask.decode_toJson` — what is read from it, whatever the mask.
* `FieldMask.plain_of_resolve` — a mask that is accepted is read back.
* `FieldMask.told_by_text` — which masks are read back, and which texts.
-/
namespace SubnetRegistry

namespace FieldMask

variable {m : FieldMask} {fields : List SubnetField}

/-- The text of a mask has its paths with commas between them. -/
theorem joined_eq_intercalate (m : FieldMask) : m.joined = ",".intercalate m.paths := by
  rw [← String.toList_inj, String.toList_intercalate, joined, String.toList_ofList,
    Text.join_eq_intercalate]
  rfl

/-- A text is read as the mask of its pieces, if it is JSON. -/
theorem decode_text (s : String) : Json.decode ofNode (Json.Value.text s).bytes = .ok (ofJoined s) := by
  refine Json.decode_bytes trivial fun node h => ?_
  rw [ofNode, h.asTextFor]
  rfl

/-- What is written for a mask is read as the mask of its joined paths. -/
theorem decode_toJson (m : FieldMask) :
    Json.decode ofNode m.toJson.bytes = .ok (ofJoined m.joined) :=
  decode_text m.joined

/-- A mask is read back from its text exactly if it is plain. -/
theorem decode_toJson_eq_ok_iff : Json.decode ofNode m.toJson.bytes = .ok m ↔ m.Plain := by
  rw [decode_toJson]
  constructor
  · intro h
    rw [← Except.ok.inj h]
    exact ofJoined_plain m.joined
  · intro h
    rw [ofJoined_joined h]

/-- One empty path, which is refused, is written like no path at all, which replaces everything. -/
example : resolve (some ⟨[""]⟩) = .error (.unknownPath "") ∧ ofJoined (joined ⟨[""]⟩) = ⟨[]⟩ ∧
    resolve (some ⟨[]⟩) = .ok [] := by
  decide

theorem comma_not_mem_path (f : SubnetField) : ',' ∉ f.path.toList := by
  cases f <;> decide

/-- Masks that are accepted are plain. -/
theorem plain_of_resolve (h : resolve (some m) = .ok fields) : m.Plain := by
  obtain ⟨paths⟩ := m
  obtain ⟨-, rfl | rfl⟩ | hnames := resolve_eq_ok_iff.1 h
  · exact ⟨nofun, nofun⟩
  · exact ⟨by decide, by decide⟩
  · constructor
    · intro p hp
      obtain ⟨f, -, rfl⟩ := (hnames.named p).1 hp
      exact comma_not_mem_path f
    · rintro rfl
      obtain ⟨f, -, hf⟩ := (hnames.named "").1 (List.mem_singleton_self "")
      exact absurd (mem_fieldPaths_iff.2 ⟨f, hf⟩) (by decide)

/-- A request with a mask that is accepted is read back from its message. -/
theorem ofMessage_of_resolve {u : UpdateRequest} (h : resolve u.updateMask = .ok fields)
    (root : String) :
    Request.ofMessage root (Subject.ofOperation root .update) (Request.update u).toJson.bytes =
      .ok (.update u) := by
  refine Request.ofMessage_toJson (r := .update u) ?_ root
  rintro _ ⟨⟩ m hm
  rw [hm] at h
  exact plain_of_resolve h

/-- A mask is read back from its text exactly if no path has a comma and it is not one empty path.
Every text is written for the mask that is read from it. A mask that is accepted is read back, by itself
and in an update that is sent, so that the same fields are replaced where it arrives. -/
theorem told_by_text :
    (∀ m : FieldMask, m.toJson = .text (",".intercalate m.paths) ∧
        (Json.decode ofNode m.toJson.bytes = .ok m ↔
          (∀ p ∈ m.paths, ',' ∉ p.toList) ∧ m.paths ≠ [""])) ∧
      (∀ s : String, ∃ m, Json.decode ofNode (Json.Value.text s).bytes = .ok m ∧
        m.toJson = .text s) ∧
      (∀ m fields, resolve (some m) = .ok fields → Json.decode ofNode m.toJson.bytes = .ok m) ∧
      ∀ (u : UpdateRequest) fields root, resolve u.updateMask = .ok fields →
        ∃ received, Request.ofMessage root (Subject.ofOperation root .update)
            (Request.update u).toJson.bytes = .ok (.update received) ∧
          received = u ∧ resolve received.updateMask = .ok fields := by
  refine ⟨fun m => ⟨congrArg _ m.joined_eq_intercalate, ?_⟩, fun s => ?_, fun m fields h => ?_,
    fun u fields root h => ⟨u, ofMessage_of_resolve h root, rfl, h⟩⟩
  · rw [decode_toJson_eq_ok_iff]
    exact ⟨fun h => ⟨h.no_comma, h.ne_blank⟩, fun h => ⟨h.1, h.2⟩⟩
  · exact ⟨ofJoined s, decode_text s, congrArg _ (joined_ofJoined s)⟩
  · exact decode_toJson_eq_ok_iff.2 (plain_of_resolve h)

/-- A mask of two paths arrives under a root with a dot. -/
theorem told_by_text_sent :
    let u : UpdateRequest := ⟨{ name := "subnets/a" }, some ⟨["status.hw_index", "spec"]⟩, true⟩
    resolve u.updateMask = .ok [.hwIndex, .spec] ∧
      Json.decode ofNode (FieldMask.toJson ⟨["status.hw_index", "spec"]⟩).bytes =
        .ok ⟨["status.hw_index", "spec"]⟩ ∧
      ∃ received, Request.ofMessage "a.b" (Subject.ofOperation "a.b" .update)
          (Request.update u).toJson.bytes = .ok (.update received) ∧
        resolve received.updateMask = .ok [.hwIndex, .spec] := by
  intro u
  have h : resolve u.updateMask = .ok [.hwIndex, .spec] := rfl
  obtain ⟨-, -, hmask, hsent⟩ := told_by_text
  obtain ⟨received, hreceived, -, hfields⟩ := hsent u _ "a.b" h
  exact ⟨h, hmask _ _ h, received, hreceived, hfields⟩

end FieldMask
end SubnetRegistry
